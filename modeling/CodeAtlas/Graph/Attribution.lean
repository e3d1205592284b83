import CodeAtlas.Facts.Module

/-!
# Who makes a call

A call belongs to the function or method whose lines it stands on. `lineOwners` goes through the lines in
ascending order once, with a stack of the declarations that have started : those that start by the line are
put on it, later starts on top, and the ones on top that have ended are taken off. Of declarations that
start on one line the shorter is on top, of equal ones the first.
-/

namespace CodeAtlas.Graph

open CodeAtlas.Facts

/-- A declaration with its place in a list. -/
abbrev Placed := Declaration × Nat

/-- The order in which declarations are put on the stack. -/
def Placed.opensBefore (a b : Placed) : Bool :=
  decide (a.1.startLine < b.1.startLine) ||
    (a.1.startLine == b.1.startLine &&
      (decide (b.1.endLine < a.1.endLine) ||
        (a.1.endLine == b.1.endLine && decide (b.2 ≤ a.2))))

/-- The functions and methods of a list, in the order in which they are put on the stack. -/
def candidates (ds : List Declaration) : List Placed :=
  (ds.zipIdx.filter fun d => d.1.kind.isCallable).mergeSort Placed.opensBefore

/-- What the pass over the lines knows : the declarations still to start, and the stack, its top first. -/
structure Sweep where
  waiting : List Placed
  opened : List Placed

namespace Sweep

/-- Go on to a line. -/
def advance (s : Sweep) (line : Nat) : Sweep :=
  let started := s.waiting.takeWhile fun d => decide (d.1.startLine ≤ line)
  { waiting := s.waiting.dropWhile fun d => decide (d.1.startLine ≤ line)
    opened := (started.reverse ++ s.opened).dropWhile fun d => decide (d.1.endLine < line) }

/-- The declaration on top of the stack, by its place. -/
def owner? (s : Sweep) : Option Nat := s.opened.head?.map (·.2)

/-- The owners of lines in ascending order, each line with its place. -/
def owners (s : Sweep) : List (Nat × Nat) → List (Option Nat × Nat)
  | [] => []
  | (line, i) :: rest =>
    let s := s.advance line
    (s.owner?, i) :: s.owners rest

end Sweep

/-- The places of the declarations to which lines belong, for each line in turn. -/
def lineOwners (ds : List Declaration) (lines : List Nat) : List (Option Nat) :=
  let ascending := lines.zipIdx.mergeSort fun a b => decide (a.1 ≤ b.1)
  let owners := Sweep.owners ⟨candidates ds, []⟩ ascending
  (owners.mergeSort fun a b => decide (a.2 ≤ b.2)).map (·.1)

end CodeAtlas.Graph
