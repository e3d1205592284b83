import CodeAtlas.Facts.Summary

/-!
# Reports

The outcome of an analysis : the facts and their summaries, the units that were left out and why, and some
counts.
-/

namespace CodeAtlas.Facts

/-- Why a unit was left out. -/
inductive FailureKind where
  | parse
  | read
  | tooLarge
  deriving DecidableEq, Repr, Inhabited

/-- The word for a reason. -/
def FailureKind.word : FailureKind → String
  | parse => "parse"
  | read => "read"
  | tooLarge => "too_large"

def FailureKind.all : List FailureKind := [parse, read, tooLarge]

/-- A unit that was left out. -/
structure UnitFailure where
  module : String
  path : String
  kind : FailureKind
  line : Option Nat
  message : String
  deriving DecidableEq, Repr, Inhabited

namespace UnitFailure

/-- A unit that could not be read. -/
def unreadable (module path message : String) : UnitFailure := ⟨module, path, .read, none, message⟩

/-- A unit that is over the size limit and was not read. -/
def oversized (module path : String) (size : Nat) : UnitFailure :=
  ⟨module, path, .tooLarge, none, s!"File is {size} bytes, over the size limit"⟩

end UnitFailure

/-- Counts of an analysis. -/
structure Diagnostics where
  unitsAnalyzed : Nat := 0
  unitsFailed : Nat := 0
  symbolCollisions : Nat := 0
  callSites : Nat := 0
  unresolvedCalls : Nat := 0
  callEdges : Nat := 0
  deriving DecidableEq, Repr, Inhabited

/-- The outcome of an analysis. -/
structure Report where
  facts : RepoFacts
  summaries : Summaries
  failures : List UnitFailure
  diagnostics : Diagnostics

end CodeAtlas.Facts
