import CodeAtlas.Toml.Scalar

/-!
# TOML documents

A document is a list of sections, each under a header, with keys and values. Its tables are built section by
section and come out as one JSON object.

A table is *open* while it only exists because something inside it was named. A header may define an open
table later. Tables made by dotted keys may only be extended by dotted keys of the same section. Arrays and
tables written as values are closed.
-/

namespace CodeAtlas.Toml

open CodeAtlas (Json)
open CodeAtlas.Json (Reader)

/-! ## Tables in the making -/

/-- An entry of a table in the making. -/
inductive Item where
  /-- A value. -/
  | value (v : Json)
  /-- A table : whether it is open, whether dotted keys made it, and its entries. -/
  | table (isOpen dotted : Bool) (entries : List (String × Item))
  /-- The tables of an array that headers define, the last one first. -/
  | tables (last : List (String × Item)) (before : List (List (String × Item)))

abbrev Entries := List (String × Item)

namespace Item

/-- An entry under a name, replaced or put at the end. -/
def put (name : String) (item : Item) : Entries → Entries
  | [] => [(name, item)]
  | (n, i) :: rest => if n == name then (n, item) :: rest else (n, i) :: put name item rest

mutual

/-- The finished value of an entry. -/
def toJson : Item → Json
  | .value v => v
  | .table _ _ entries => .object (fieldsOf entries)
  | .tables last before => .array ((objectsOf before).reverse ++ [.object (fieldsOf last)])

def fieldsOf : List (String × Item) → List (String × Json)
  | [] => []
  | (name, item) :: rest => (name, toJson item) :: fieldsOf rest

def objectsOf : List (List (String × Item)) → List Json
  | [] => []
  | entries :: rest => .object (fieldsOf entries) :: objectsOf rest

end

/-- Change the table at the end of a path. Tables on the way that do not exist are made; the path of a dotted
key must not go through a table that is not open. -/
def updateAt (dotted : Bool) (change : Bool → Entries → Option Entries) :
    (path : List String) → (isDotted : Bool) → Entries → Option Entries
  | [], isDotted, entries => change isDotted entries
  | key :: path, _, entries =>
    match entries.lookup key with
    | none => (updateAt dotted change path dotted []).map fun inner =>
        put key (.table true dotted inner) entries
    | some (.value _) => none
    | some (.tables last before) => (updateAt dotted change path false last).map fun inner =>
        put key (.tables inner before) entries
    | some (.table isOpen isDotted inner) =>
      if dotted && !isOpen then none
      else (updateAt dotted change path isDotted inner).map fun inner =>
        put key (.table isOpen isDotted inner) entries

/-- Enter a value under a dotted key. -/
def enter (path : List String) (name : String) (item : Item) (entries : Entries) : Option Entries :=
  updateAt true
    (fun isDotted inner =>
      if isDotted == path.isEmpty || (inner.lookup name).isSome then none
      else some (inner ++ [(name, item)]))
    path false entries

end Item

/-! ## Keys -/

def isBareKeyChar (c : Char) : Bool := c.isAlphanum || c == '-' || c == '_'

/-- One part of a key. -/
def simpleKey? : Reader String := fun cs =>
  match cs with
  | '"' :: rest =>
    (basicTail? (rest.length + 1) [] rest).map fun (chars, rest) => (String.ofList chars, rest)
  | '\'' :: rest => (literalTail? [] rest).map fun (chars, rest) => (String.ofList chars, rest)
  | _ =>
    let name := cs.takeWhile isBareKeyChar
    if name.isEmpty then none else some (String.ofList name, cs.dropWhile isBareKeyChar)

/-- The number of levels that keys and values must stay below. -/
def levelLimit : Nat := 80

/-- The parts of a key with points between them. -/
def keyParts? : Nat → List String → Reader (List String)
  | 0, _, _ => none
  | fuel + 1, read, cs =>
    match simpleKey? (skipBlanks cs) with
    | none => none
    | some (name, rest) =>
      match skipBlanks rest with
      | '.' :: rest => keyParts? fuel (name :: read) rest
      | rest => some ((name :: read).reverse, rest)

/-- A key : its parts before the last, and the last. -/
def key? : Reader (List String × String) := fun cs =>
  match keyParts? levelLimit [] cs with
  | some (parts, rest) =>
    if parts.length < levelLimit then some ((parts.dropLast, parts.getLast?.getD ""), rest) else none
  | none => none

/-! ## Values -/

/-- What follows a comment : all up to the end of its line. -/
def afterComment? (cs : List Char) : Option (List Char) :=
  match cs with
  | '#' :: rest => some (rest.dropWhile fun c => c == '\t' || decide (32 ≤ c.toNat))
  | _ => none

/-- Skip blanks, comments and line ends. -/
def skipLines : Nat → List Char → List Char
  | 0, cs => cs
  | fuel + 1, cs =>
    let cs := skipSpace cs
    match afterComment? cs with
    | none => cs
    | some rest =>
      match afterLineEnd? rest with
      | some rest => skipLines fuel rest
      | none => rest

mutual

/-- A value. The first number bounds the steps, the second the levels that may still be opened. -/
def value? : Nat → Nat → Reader Json
  | 0, _, _ => none
  | fuel + 1, levels, cs =>
    match cs with
    | [] => none
    | 't' :: 'r' :: 'u' :: 'e' :: rest => some (.bool true, rest)
    | 'f' :: 'a' :: 'l' :: 's' :: 'e' :: rest => some (.bool false, rest)
    | '[' :: rest =>
      match levels with
      | 0 => none
      | levels + 1 => (items? fuel levels [] rest).map fun (items, rest) => (.array items, rest)
    | '\x7b' :: rest =>
      match levels with
      | 0 => none
      | levels + 1 =>
        match skipBlanks rest with
        | '\x7d' :: rest => some (.object [], rest)
        | rest =>
          (pairs? fuel levels [] rest).map fun (entries, rest) => (.object (Item.fieldsOf entries), rest)
    | c :: _ =>
      if c == '"' || c == '\'' then (string? cs).map fun (s, rest) => (.string s, rest)
      else if c == '_' || c == '.' then none
      else moment? cs <|> float? cs <|> integer? cs

/-- The items of an array up to its closing bracket; a comma may stand after the last. -/
def items? : Nat → Nat → List Json → Reader (List Json)
  | 0, _, _, _ => none
  | fuel + 1, levels, read, cs =>
    match skipLines cs.length cs with
    | ']' :: rest => some (read.reverse, rest)
    | cs =>
      match value? fuel levels cs with
      | none => none
      | some (v, rest) =>
        match skipLines rest.length rest with
        | ',' :: rest => items? fuel levels (v :: read) rest
        | ']' :: rest => some ((v :: read).reverse, rest)
        | _ => none

/-- The pairs of a table written as a value, up to its closing bracket. -/
def pairs? : Nat → Nat → Entries → Reader Entries
  | 0, _, _, _ => none
  | fuel + 1, levels, read, cs =>
    match key? cs with
    | some ((path, name), '=' :: rest) =>
      match value? fuel levels (skipBlanks rest) with
      | none => none
      | some (v, rest) =>
        match Item.enter path name (.value v) read with
        | none => none
        | some read =>
          match skipBlanks rest with
          | ',' :: rest => pairs? fuel levels read rest
          | '\x7d' :: rest => some (read, rest)
          | _ => none
    | _ => none

end

/-! ## Sections -/

/-- What a section defines. -/
inductive Header where
  /-- The document itself, before any header. -/
  | top
  | table (path : List String) (name : String)
  | tables (path : List String) (name : String)

/-- A document in the making : the finished part, and the section that is being read. -/
structure Draft where
  root : Entries
  header : Header
  current : Entries

namespace Draft

/-- Put the section that was read into its place. -/
def finish (d : Draft) : Option Entries :=
  match d.header with
  | .top => some d.current
  | .table path name =>
    Item.updateAt false
      (fun _ inner => some (Item.put name (.table false false d.current) inner)) path false d.root
  | .tables path name =>
    Item.updateAt false
      (fun _ inner =>
        match inner.lookup name with
        | none => some (Item.put name (.tables d.current []) inner)
        | some (.tables last before) => some (Item.put name (.tables d.current (last :: before)) inner)
        | some _ => none)
      path false d.root

/-- Begin the section of a table. An open table that no dotted key made goes on; any other is defined
already. -/
def beginTable (root : Entries) (path : List String) (name : String) : Option Draft :=
  let start (inner : Entries) : Option Entries :=
    match inner.lookup name with
    | none => some inner
    | some (.table true false _) => some inner
    | some _ => none
  let found (inner : Entries) : Entries :=
    match inner.lookup name with
    | some (.table _ _ entries) => entries
    | _ => []
  let rec look : List String → Entries → Entries
    | [], inner => found inner
    | key :: path, inner =>
      match inner.lookup key with
      | some (.table _ _ entries) => look path entries
      | some (.tables last _) => look path last
      | _ => []
  (Item.updateAt false (fun _ inner => start inner) path false root).map fun root =>
    { root, header := .table path name, current := look path root }

/-- Begin the section of a further table of an array. -/
def beginTables (root : Entries) (path : List String) (name : String) : Option Draft :=
  let start (inner : Entries) : Option Entries :=
    match inner.lookup name with
    | none => some inner
    | some (.tables _ _) => some inner
    | some _ => none
  (Item.updateAt false (fun _ inner => start inner) path false root).map fun root =>
    { root, header := .tables path name, current := [] }

end Draft

/-! ## Documents -/

/-- What follows the end of a line, after blanks and a comment. -/
def lineEnd? (cs : List Char) : Option (List Char) :=
  let cs := skipBlanks cs
  let cs := (afterComment? cs).getD cs
  if cs.isEmpty then some [] else afterLineEnd? cs

/-- Read one line of a document. -/
def line? (d : Draft) (cs : List Char) : Option (Draft × List Char) :=
  match cs with
  | '[' :: '[' :: rest => do
    let ((path, name), rest) ← key? rest
    let rest ← expect? ']' rest
    let rest ← expect? ']' rest
    let rest ← lineEnd? rest
    let root ← d.finish
    let d ← Draft.beginTables root path name
    return (d, rest)
  | '[' :: rest => do
    let ((path, name), rest) ← key? rest
    let rest ← expect? ']' rest
    let rest ← lineEnd? rest
    let root ← d.finish
    let d ← Draft.beginTable root path name
    return (d, rest)
  | cs => do
    let ((path, name), rest) ← key? cs
    let rest ← expect? '=' rest
    let rest := skipBlanks rest
    let (v, rest) ← value? (2 * rest.length + 2) (levelLimit - 1) rest
    let rest ← lineEnd? rest
    let current ← Item.enter path name (.value v) d.current
    return ({ d with current }, rest)

/-- Read the lines of a document. -/
def lines? : Nat → Draft → List Char → Option Draft
  | 0, _, _ => none
  | fuel + 1, d, cs =>
    let cs := skipBlanks cs
    if cs.isEmpty then some d
    else
      match lineEnd? cs with
      | some rest => lines? fuel d rest
      | none =>
        match line? d cs with
        | some (d, rest) => lines? fuel d rest
        | none => none

/-- The object of a document. A byte order mark at the beginning is passed over. -/
def parse? (text : String) : Option Json := do
  let cs := text.toList
  let cs := if cs.head? == some '\ufeff' then cs.drop 1 else cs
  let d ← lines? (cs.length + 2) ⟨[], .top, []⟩ cs
  let entries ← d.finish
  return .object (Item.fieldsOf entries)

end CodeAtlas.Toml
