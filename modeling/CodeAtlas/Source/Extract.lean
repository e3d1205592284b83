import CodeAtlas.Facts.Module
import CodeAtlas.Source.Judgement
import CodeAtlas.Source.Parse

/-!
# Reading facts off a tree

The imports, classes and functions at the top level of a module, the methods directly in its classes, and
all calls of something that has a name.
-/

namespace CodeAtlas.Source

open CodeAtlas.Facts CodeAtlas.Syntax

/-- A source file : its module, its path and its text. -/
structure SourceUnit where
  module : String
  path : String
  text : String
  deriving DecidableEq, Repr, Inhabited

/-- A text that is rejected, with the line where that is known. -/
structure Rejection where
  path : String
  line : Option Nat
  fault : Fault
  deriving DecidableEq, Repr

/-- The words for a rejection. -/
def Rejection.message (r : Rejection) : String :=
  let line := match r.line with
    | some n => " (line " ++ toString n ++ ")"
    | none => ""
  "Failed to parse " ++ r.path ++ line ++ ": " ++ r.fault.message

/-! ## Signatures -/

/-- The text after the stars of a parameter. -/
def starredName (n : Node) : String := (n.namedChildren.head?.map (·.text)).getD ""

/-- The name of a parameter that stands by itself; `none` for what is no parameter. -/
def plainParameter? (n : Node) : Option String :=
  if n.kind = "identifier" ∨ n.kind = "tuple_pattern" then some n.text
  else if n.kind = "default_parameter" ∨ n.kind = "typed_default_parameter" then
    (n.field? "name").map (·.text)
  else if n.kind = "list_splat_pattern" then some ("*" ++ starredName n)
  else if n.kind = "dictionary_splat_pattern" then some ("**" ++ starredName n)
  else if n.kind = "keyword_separator" then some "*"
  else if n.kind = "positional_separator" then some "/"
  else none

mutual

/-- The name of a parameter; one with a type is named by what stands before the type. -/
def parameter? : Node → Option String
  | .mk i children =>
    if i.kind = "typed_parameter" then firstParameter? children
    else plainParameter? (.mk i children)

/-- The name given by the first named node of a list. -/
def firstParameter? : List Node → Option String
  | [] => none
  | c :: rest => if c.info.named then parameter? c else firstParameter? rest

end

/-- The names of the parameters, in parentheses. -/
def signature (parameters : Option Node) : String :=
  let names := match parameters with
    | some n => n.namedChildren.filterMap parameter?
    | none => []
  "(" ++ String.intercalate ", " names ++ ")"

/-! ## Decorators -/

mutual

/-- The parts of a dotted name, the last first; `none` if it does not start at a name. -/
def dottedParts? : Node → Option (List String)
  | .mk i children =>
    if i.kind = "attribute" then
      match children.find? (·.info.field == some "attribute") with
      | some name => (objectParts? children).map (name.text :: ·)
      | none => none
    else if i.kind = "identifier" then some [i.text]
    else none

/-- The parts of the node in the field `object`. -/
def objectParts? : List Node → Option (List String)
  | [] => none
  | c :: rest => if c.info.field == some "object" then dottedParts? c else objectParts? rest

end

/-- What a decorator is called : a dotted name without the blanks in it, or the text of the expression. -/
def decoratorName (n : Node) : String :=
  if n.kind = "attribute" then
    match dottedParts? n with
    | some parts => String.intercalate "." parts.reverse
    | none => n.text
  else n.text

/-- The decorators of a decorated definition. -/
def decoratorNames (n : Node) : List String :=
  (n.namedChildren.filter (·.kind == "decorator")).filterMap fun d =>
    d.namedChildren.head?.map decoratorName

/-! ## Functions and classes -/

/-- The facts of a function definition. -/
def functionFacts? (decorators : List String) (n : Node) : Option FunctionFacts :=
  (n.field? "name").map fun name =>
    { name := name.text
      signature := signature (n.field? "parameters")
      decorators
      isAsync := n.children.head?.any (·.kind == "async")
      startLine := startLine n
      endLine := endLine n }

/-- The definition in a statement, with its decorators. -/
def definition? (n : Node) : Option (List String × Node) :=
  if n.kind = "class_definition" ∨ n.kind = "function_definition" then some ([], n)
  else if n.kind = "decorated_definition" then
    (n.field? "definition").map fun d => (decoratorNames n, d)
  else none

/-- The facts of a statement that defines a function. -/
def functionOf? (n : Node) : Option FunctionFacts :=
  (definition? n).bind fun (decorators, d) =>
    if d.kind = "function_definition" then functionFacts? decorators d else none

/-- The facts of a class definition. -/
def classFacts? (decorators : List String) (n : Node) : Option ClassFacts :=
  (n.field? "name").map fun name =>
    { name := name.text
      bases := match n.field? "superclasses" with
        | some arguments =>
          (arguments.namedChildren.filter fun a =>
            a.kind != "keyword_argument" && a.kind != "comment").map (·.text)
        | none => []
      decorators
      methods := match n.field? "body" with
        | some body => body.namedChildren.filterMap functionOf?
        | none => []
      startLine := startLine n
      endLine := endLine n }

/-- The facts of a statement that defines a class. -/
def classOf? (n : Node) : Option ClassFacts :=
  (definition? n).bind fun (decorators, d) =>
    if d.kind = "class_definition" then classFacts? decorators d else none

/-! ## Imports -/

/-- The name that is imported, whatever it is called afterwards. -/
def importedName (n : Node) : String :=
  if n.kind = "aliased_import" then
    match n.field? "name" with
    | some name => name.text
    | none => n.text
  else n.text

/-- The module from which names are imported; the dots of a relative import are dropped. -/
def importedModule (n : Node) : String :=
  if n.kind = "relative_import" then
    match n.namedChildren.find? (·.kind == "dotted_name") with
    | some name => name.text
    | none => ""
  else n.text

/-- The qualified names that an import statement imports. -/
def importsOf (n : Node) : List String :=
  let names := (n.fieldChildren "name").map importedName
  if n.kind = "import_statement" then names
  else if n.kind = "import_from_statement" ∨ n.kind = "future_import_statement" then
    let module :=
      if n.kind = "future_import_statement" then "__future__"
      else match n.field? "module_name" with
        | some m => importedModule m
        | none => ""
    let members :=
      if n.namedChildren.any (·.kind == "wildcard_import") then names ++ ["*"] else names
    members.map fun member => if module = "" then member else module ++ "." ++ member
  else []

/-- Put a name into a list that is in order, once. -/
def insertName (name : String) : List String → List String
  | [] => [name]
  | n :: rest =>
    if name < n then name :: n :: rest
    else if name = n then n :: rest
    else n :: insertName name rest

/-- The names in order, each once. -/
def sortedNames (names : List String) : List String :=
  names.foldl (fun sorted name => insertName name sorted) []

/-- The facts of a module's tree. -/
def moduleFacts (module path : String) (root : Node) : ModuleFacts :=
  let statements := root.namedChildren
  { module, path
    imports := sortedNames (statements.flatMap importsOf)
    classes := statements.filterMap classOf?
    functions := statements.filterMap functionOf? }

/-! ## Calls -/

/-- A call site with the place of the callee's name. -/
def callOf? (n : Node) : Option (Nat × CallSite) :=
  if n.kind = "call" then
    match n.field? "function" with
    | some f =>
      if f.kind = "identifier" then some (f.start.byte, ⟨f.text, startLine n, false⟩)
      else if f.kind = "attribute" then
        match f.field? "attribute" with
        | some name =>
          if name.kind = "identifier" then some (name.start.byte, ⟨name.text, startLine n, true⟩)
          else none
        | none => none
      else none
    | none => none
  else none

/-- All call sites, in the order of the callees' names in the text. -/
def callSites (root : Node) : List CallSite :=
  ((root.preorder.filterMap callOf?).mergeSort fun a b => decide (a.1 ≤ b.1)).map (·.2)

/-! ## Source files -/

/-- The tree of a text that is accepted. -/
def checkedTree (path text : String) : Except Rejection Node :=
  match parse text with
  | none => .error ⟨path, none, .invalidSyntax⟩
  | some parsed =>
    match fault? parsed.hasError parsed.root with
    | some (line, fault) => .error ⟨path, line, fault⟩
    | none => .ok parsed.root

/-- The facts and the call sites of a source file. -/
def extract (u : SourceUnit) : Except Rejection ExtractedUnit :=
  (checkedTree u.path u.text).map fun root => ⟨moduleFacts u.module u.path root, callSites root⟩

end CodeAtlas.Source
