import CodeAtlas.Text.Numeral

/-!
# Arguments of the command line

The first argument names a command, and the others are its options and its paths, in any order. An option takes its
value after an equals sign, after a space, or, if it has a single letter, without anything between. Nothing
may be given twice. After `--` all arguments are paths.

Arguments are read from left to right, so that what asks for the version wins over all that is wrong after
it, and what is wrong before it wins over that.
-/

namespace CodeAtlas.Command

/-! ## Jobs and commands -/

/-- What the program is asked to do. -/
inductive Job where
  | analyze (path : String)
  | facts (path : String)
  | callGraph (path symbol : String) (maxDepth : Option Nat) (json : Bool)
  | paths (path start target : String) (maxDepth : Option Nat) (json : Bool)
  | serve (path host : Option String) (port : Option Nat)
  deriving DecidableEq, Repr, Inhabited

/-- The names of the commands. -/
inductive CommandName where
  | analyze
  | facts
  | callGraph
  | paths
  | serve
  deriving DecidableEq, Repr, Inhabited

namespace CommandName

/-- The word for a command. -/
def word : CommandName → String
  | analyze => "analyze"
  | facts => "facts"
  | callGraph => "callgraph"
  | paths => "paths"
  | serve => "serve"

/-- The words by which commands are called; some have a short one too. -/
def words : List (String × CommandName) :=
  [ ("analyze", analyze), ("a", analyze), ("facts", facts), ("callgraph", callGraph), ("cg", callGraph),
    ("paths", paths), ("serve", serve) ]

end CommandName

/-- What arguments come to. -/
inductive Invocation where
  | run (job : Job)
  /-- The version is asked for, of the program or of one command. -/
  | version (of : Option CommandName)
  /-- Help is asked for. -/
  | help
  /-- The arguments are wrong. -/
  | misuse
  deriving DecidableEq, Repr, Inhabited

/-! ## Options -/

/-- What can be given to a command. -/
inductive Parameter where
  | path
  | symbol
  | start
  | target
  | maxDepth
  | host
  | port
  | json
  | help
  | version
  deriving DecidableEq, Repr, Inhabited

namespace Parameter

/-- Whether a value belongs to it. -/
def takesValue : Parameter → Bool
  | json => false
  | help => false
  | version => false
  | _ => true

/-- The long names of the options of a command. -/
def longNames : CommandName → List (String × Parameter)
  | .analyze => common
  | .facts => common
  | .callGraph => [("symbol", symbol), ("max-depth", maxDepth), ("json", json)] ++ common
  | .paths => [("start", start), ("end", target), ("max-depth", maxDepth), ("json", json)] ++ common
  | .serve => [("host", host), ("port", port)] ++ common
where
  common : List (String × Parameter) := [("help", help), ("version", version)]

/-- The letters of the options of a command. -/
def letters : CommandName → List (Char × Parameter)
  | .analyze => common
  | .facts => common
  | .callGraph => [('s', symbol), ('d', maxDepth)] ++ common
  | .paths => [('d', maxDepth)] ++ common
  | .serve => [('p', port)] ++ common
where
  common : List (Char × Parameter) := [('h', help), ('V', version)]

/-- Whether a text can be the value. A path is not empty, a depth has 64 bits and a port 16. -/
def accepts : Parameter → String → Bool
  | path, text => !text.isEmpty
  | maxDepth, text => (Numeral.read? UInt64.size text).isSome
  | port, text => (Numeral.readSigned? UInt16.size text).isSome
  | _, _ => true

end Parameter

/-! ## Reading -/

/-- The arguments of a command so far. An option may be waiting for its value. -/
structure Given where
  values : List (Parameter × String) := []
  waiting : Option Parameter := none
  deriving Inhabited

/-- Why reading ends early. -/
inductive Stop where
  | version
  | help
  | misuse
  deriving DecidableEq, Repr, Inhabited

namespace Given

def value? (g : Given) (p : Parameter) : Option String := g.values.lookup p

/-- Give a parameter its value. -/
def assign (g : Given) (p : Parameter) (text : String) : Except Stop Given :=
  if (g.value? p).isSome || !p.accepts text then .error .misuse
  else .ok { g with values := g.values ++ [(p, text)], waiting := none }

/-- Give an option without a value. An option that still waits for one is in the way. -/
def flag (g : Given) (p : Parameter) : Except Stop Given :=
  if g.waiting.isSome then .error .misuse
  else
    match p with
    | .help => .error .help
    | .version => .error .version
    | p => g.assign p ""

/-- Give an option with the value that is attached to it, or let it wait for one. -/
def option (g : Given) (p : Parameter) (attached : Option String) : Except Stop Given :=
  if g.waiting.isSome then .error .misuse
  else
    match attached with
    | some text => g.assign p text
    | none => .ok { g with waiting := some p }

/-- Read a long option without its dashes. -/
def long (c : CommandName) (g : Given) (text : List Char) : Except Stop Given :=
  let name := String.ofList (text.takeWhile (· != '='))
  let attached := match text.dropWhile (· != '=') with
    | _ :: rest => some (String.ofList rest)
    | [] => none
  match (Parameter.longNames c).lookup name with
  | none => .error .misuse
  | some p =>
    if p.takesValue then g.option p attached
    else if attached.isSome then .error .misuse
    else g.flag p

/-- Read letters after a dash. The first one that takes a value takes all that follows it. -/
def short (c : CommandName) (g : Given) : List Char → Except Stop Given
  | [] => .ok g
  | letter :: rest =>
    match (Parameter.letters c).lookup letter with
    | none => .error .misuse
    | some p =>
      if p.takesValue then
        g.option p (match rest with
          | [] => none
          | '=' :: rest => some (String.ofList rest)
          | rest => some (String.ofList rest))
      else do
        let g ← g.flag p
        short c g rest

/-- Read an argument that is no option : the value of the option that waits, or else the path. -/
def plain (g : Given) (text : String) : Except Stop Given :=
  match g.waiting with
  | some p => { g with waiting := none }.assign p text
  | none => if (g.value? .path).isSome then .error .misuse else g.assign .path text

/-- Read all arguments of a command. -/
def read (c : CommandName) (onlyPaths : Bool) : Given → List String → Except Stop Given
  | g, [] => if g.waiting.isSome then .error .misuse else .ok g
  | g, arg :: args =>
    if onlyPaths then do
      let g ← g.plain arg
      read c true g args
    else
      match arg.toList with
      | ['-', '-'] => if g.waiting.isSome then .error .misuse else read c true g args
      | '-' :: '-' :: text => do
        let g ← long c g text
        read c false g args
      | '-' :: letter :: rest => do
        let g ← short c g (letter :: rest)
        read c false g args
      | _ => do
        let g ← g.plain arg
        read c false g args

/-- The job that a command is given by its arguments, if none is missing. -/
def job? (c : CommandName) (g : Given) : Option Job := do
  let maxDepth := (g.value? .maxDepth).bind (Numeral.read? UInt64.size)
  let json := (g.value? .json).isSome
  match c with
  | .analyze => return .analyze (← g.value? .path)
  | .facts => return .facts (← g.value? .path)
  | .callGraph => return .callGraph (← g.value? .path) (← g.value? .symbol) maxDepth json
  | .paths => return .paths (← g.value? .path) (← g.value? .start) (← g.value? .target) maxDepth json
  | .serve =>
    return .serve (g.value? .path) (g.value? .host) ((g.value? .port).bind (Numeral.readSigned? UInt16.size))

end Given

/-- What the arguments of a command come to. -/
def ofCommand (c : CommandName) (args : List String) : Invocation :=
  match Given.read c false {} args with
  | .error .version => .version (some c)
  | .error .help => .help
  | .error .misuse => .misuse
  | .ok g =>
    match g.job? c with
    | some job => .run job
    | none => .misuse

/-- Whether a word calls a command. -/
def isCommandWord (word : String) : Bool := word == "help" || (CommandName.words.lookup word).isSome

/-- What the arguments of the program come to. Before a command only help and the version can be asked for. -/
def ofArguments (args : List String) : Invocation :=
  match args with
  | [] => .misuse
  | arg :: rest =>
    match CommandName.words.lookup arg with
    | some c => ofCommand c rest
    | none =>
      match arg.toList with
      | '-' :: 'V' :: _ => .version none
      | '-' :: 'h' :: _ => .help
      | _ =>
        if arg == "--version" then .version none
        else if arg == "--help" then .help
        else if arg == "help" && (rest.isEmpty || (rest.length == 1 && rest.all isCommandWord)) then .help
        else .misuse

end CodeAtlas.Command
