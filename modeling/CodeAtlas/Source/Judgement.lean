import CodeAtlas.Syntax.Node

/-!
# What Python 3 rejects

The grammar reads more than Python 3 allows. A tree without errors is judged here : no print or exec
statement, no `<>`, no comma between an exception and its name, and the statements of a block that start a
line stand in one column. The first offence in the order of the text is reported.
-/

namespace CodeAtlas.Source

open CodeAtlas.Syntax

/-- Why a text is rejected. -/
inductive Fault where
  | invalidSyntax
  | printStatement
  | execStatement
  | angleInequality
  | commaAlias
  | unexpectedIndent
  | noIndentedBlock
  | unmatchedUnindent
  deriving DecidableEq, Repr

/-- The words for a fault. -/
def Fault.message : Fault → String
  | .invalidSyntax => "invalid syntax"
  | .printStatement => "Missing parentheses in call to 'print'"
  | .execStatement => "Missing parentheses in call to 'exec'"
  | .angleInequality => "invalid comparison operator '<>'"
  | .commaAlias => "multiple exception types must be parenthesized"
  | .unexpectedIndent => "unexpected indent"
  | .noIndentedBlock => "expected an indented block"
  | .unmatchedUnindent => "unindent does not match any outer indentation level"

/-- The line of a node, counted from 1. -/
def startLine (n : Node) : Nat := n.start.row + 1

/-- The last line of a node. One that ends before the first column ends on the line before. -/
def endLine (n : Node) : Nat :=
  if n.stop.column = 0 ∧ n.start.row < n.stop.row then n.stop.row else n.stop.row + 1

/-- A construct of Python 2. -/
def oldConstruct? (n : Node) : Option Fault :=
  if n.kind = "print_statement" then some .printStatement
  else if n.kind = "exec_statement" then some .execStatement
  else if n.kind = "<>" ∧ n.info.named = false then some .angleInequality
  else if n.kind = "except_clause" ∧
      n.children.any (fun c => c.kind == "," || c.kind == "expression_list") then some .commaAlias
  else none

/-! ## Columns -/

/-- What is known while the statements of a block are read in order. -/
structure Margin where
  /-- The column of the statements, once it is known. -/
  column : Option Nat
  /-- The row on which the block was opened. -/
  headerRow : Option Nat
  /-- The column of the statement that the block belongs to. -/
  outer : Option Nat
  /-- The row on which the previous statement ended. -/
  previousRow : Option Nat := none
  /-- Whether a statement stands on the row on which the block was opened. -/
  onHeader : Bool := false

/-- The first statement that is out of its column, with its line. -/
def misplaced? : Margin → List Node → Option (Nat × Fault)
  | _, [] => none
  | m, child :: rest =>
    if child.info.extra then misplaced? m rest
    else
      let next := { m with previousRow := some child.stop.row }
      if m.previousRow = some child.start.row then misplaced? next rest
      else if m.headerRow = some child.start.row then misplaced? { next with onHeader := true } rest
      else if m.onHeader then some (startLine child, .unexpectedIndent)
      else
        match m.column with
        | none =>
          match m.outer with
          | some outer =>
            if child.start.column ≤ outer then some (startLine child, .noIndentedBlock)
            else misplaced? { next with column := some child.start.column } rest
          | none => misplaced? { next with column := some child.start.column } rest
        | some column =>
          if column < child.start.column then some (startLine child, .unexpectedIndent)
          else if child.start.column < column then some (startLine child, .unmatchedUnindent)
          else misplaced? next rest

/-- The first misplaced statement directly in a module or block. `parent` is the node around it and
`before` the node that precedes it there. -/
def misindented? (parent before : Option Node) (n : Node) : Option (Nat × Fault) :=
  if n.kind = "module" then
    misplaced? { column := some 0, headerRow := none, outer := none } n.namedChildren
  else if n.kind = "block" then
    misplaced?
      { column := none
        headerRow := before.map (·.stop.row)
        outer := parent.map (·.start.column) }
      n.namedChildren
  else none

/-- The offence of one node. -/
def offence? (parent before : Option Node) (n : Node) : Option (Nat × Fault) :=
  match oldConstruct? n with
  | some fault => some (startLine n, fault)
  | none => misindented? parent before n

mutual

/-- The first offence in a tree, a node before its children. -/
def firstOffence? (parent before : Option Node) : Node → Option (Nat × Fault)
  | .mk i children =>
    match offence? parent before (.mk i children) with
    | some found => some found
    | none => firstOffenceIn? (.mk i children) none children

/-- The first offence in the children of a node. -/
def firstOffenceIn? (parent : Node) : Option Node → List Node → Option (Nat × Fault)
  | _, [] => none
  | before, child :: rest =>
    match firstOffence? (some parent) before child with
    | some found => some found
    | none => firstOffenceIn? parent (some child) rest

end

/-- The fault of a tree with its line, if there is any : an error first, then what Python 3 rejects. The line of an
error is that of the first broken node; there is none if no node is. -/
def fault? (hasError : Bool) (root : Node) : Option (Option Nat × Fault) :=
  if hasError then some (root.firstBroken?.map startLine, .invalidSyntax)
  else (firstOffence? none none root).map fun (line, fault) => (some line, fault)

end CodeAtlas.Source
