import CodeAtlas.Grammar.Automaton
import CodeAtlas.Text.Position

/-!
# Subtrees

What the parser builds : tokens, and nodes over them that follow the productions of a grammar or collect what
an error covers. Every subtree knows what it costs in errors, so that the parser can prefer the reading with
the fewest.
-/

namespace CodeAtlas.Syntax

open CodeAtlas.Grammar CodeAtlas.Text

/-! ## Costs -/

/-- The cost of every error. -/
def recoveryCost : Nat := 500

/-- The cost of a token that was put in. -/
def missingCost : Nat := 110

/-- The cost of a subtree that an error covers. -/
def skippedTreeCost : Nat := 100

/-- The cost of a byte that an error covers. -/
def skippedByteCost : Nat := 1

/-- The cost of a line that an error covers. -/
def skippedLineCost : Nat := 30

/-! ## Subtrees -/

/-- What a subtree stands for. -/
inductive Label where
  /-- A symbol of the grammar. -/
  | symbol (n : Nat)
  /-- Text that fits nowhere. -/
  | error
  /-- Tokens taken into an error that is still growing. -/
  | errorRun
  deriving DecidableEq, Inhabited, Repr

/-- The place of a label in the order of symbols : errors come last. -/
def Label.rank : Label → Nat
  | .symbol n => n
  | .errorRun => 65534
  | .error => 65535

/-- Whether nodes of a label are visible. -/
def Label.visible (l : Language) : Label → Bool
  | .symbol n => (l.symbols.getD n default).visible
  | .error => true
  | .errorRun => false

/-- A token, with the scanner's state after it if the scanner supplied it. -/
structure Leaf (σ : Type) where
  label : Label
  start : Cursor
  stop : Cursor
  /-- The bytes between the previous token and this one. -/
  padding : Nat
  extra : Bool
  /-- Whether it was put in where the text has nothing. -/
  missing : Bool
  /-- Whether it is a word that is also a keyword. -/
  keyword : Bool
  /-- The scanner's state after it, and whether that changed. -/
  scanned : Option (σ × Bool)

/-- What is known of a node as a whole. -/
structure Summary where
  label : Label
  /-- The production it follows, if it is no error. -/
  production : Option Nat
  start : Cursor
  stop : Cursor
  padding : Nat
  extra : Bool
  errorCost : Nat
  dynamic : Int
  visibleDescendants : Nat
  visibleChildren : Nat
  deriving Inhabited

/-- A token or a node over subtrees. -/
inductive Subtree (σ : Type) where
  | leaf (l : Leaf σ)
  | node (s : Summary) (children : List (Subtree σ))

namespace Subtree

variable {σ : Type}

def label : Subtree σ → Label
  | .leaf l => l.label
  | .node s _ => s.label

def start : Subtree σ → Cursor
  | .leaf l => l.start
  | .node s _ => s.start

def stop : Subtree σ → Cursor
  | .leaf l => l.stop
  | .node s _ => s.stop

def padding : Subtree σ → Nat
  | .leaf l => l.padding
  | .node s _ => s.padding

def extra : Subtree σ → Bool
  | .leaf l => l.extra
  | .node s _ => s.extra

/-- The cost of the errors in a subtree. -/
def errorCost : Subtree σ → Nat
  | .leaf l => if l.missing then missingCost + recoveryCost else 0
  | .node s _ => s.errorCost

def dynamic : Subtree σ → Int
  | .leaf _ => 0
  | .node s _ => s.dynamic

def visibleDescendants : Subtree σ → Nat
  | .leaf _ => 0
  | .node s _ => s.visibleDescendants

def visibleChildren : Subtree σ → Nat
  | .leaf _ => 0
  | .node s _ => s.visibleChildren

def children : Subtree σ → List (Subtree σ)
  | .leaf _ => []
  | .node _ cs => cs

def isError (t : Subtree σ) : Bool := t.label == .error

/-- The number of bytes from the start to the end. -/
def byteSize (t : Subtree σ) : Nat := t.stop.position.byte - t.start.position.byte

/-- The scanner's state after a token that the scanner supplied. -/
def scanned? : Subtree σ → Option (σ × Bool)
  | .leaf l => l.scanned
  | .node _ _ => none

/-- The same subtree, marked as standing anywhere or not. -/
def withExtra (extra : Bool) : Subtree σ → Subtree σ
  | .leaf l => .leaf { l with extra }
  | .node s cs => .node { s with extra } cs

/-- The number of visible nodes in a subtree, itself included; a growing error counts too. -/
def nodeCount (l : Language) (t : Subtree σ) : Nat :=
  t.visibleDescendants + (if t.label.visible l then 1 else 0) + (if t.label == .errorRun then 1 else 0)

/-- Whether a label collects what an error covers. -/
def collects (label : Label) : Bool := label == .error || label == .errorRun

/-- What a child adds to the cost of an error that covers it. -/
def coveredCost (l : Language) (child : Subtree σ) : Nat :=
  if child.extra || (child.isError && child.children.isEmpty) then 0
  else if child.label.visible l then skippedTreeCost
  else if child.children.isEmpty then 0
  else skippedTreeCost * child.visibleChildren

/-- Take one child into the summary of its parent. `shown` are the steps that are still to be matched. -/
def summarizeChild (l : Language) (acc : Summary × List Step) (child : Subtree σ) :
    Summary × List Step :=
  let (s, steps) := acc
  let aliased := !child.extra && (steps.head?.bind (·.shown)).isSome
  let (descendants, visible) :=
    if aliased || child.label.visible l then (1, 1) else (0, child.visibleChildren)
  let cost :=
    (if child.label == .errorRun then 0 else child.errorCost) +
      (if collects s.label then coveredCost l child else 0)
  ({ s with
      stop := child.stop
      errorCost := s.errorCost + cost
      dynamic := s.dynamic + child.dynamic
      visibleDescendants := s.visibleDescendants + child.visibleDescendants + descendants
      visibleChildren := s.visibleChildren + visible },
    if child.extra then steps else steps.drop 1)

/-- A node over children. One without children lies at `place`. -/
def make (l : Language) (label : Label) (production : Option Nat) (place : Cursor)
    (children : List (Subtree σ)) : Subtree σ :=
  let steps := match production with
    | some p => (l.productions.getD p default).steps
    | none => []
  let first := children.head?
  let empty : Summary :=
    { label, production
      start := (first.map start).getD place
      stop := place
      padding := (first.map padding).getD 0
      extra := false, errorCost := 0, dynamic := 0, visibleDescendants := 0, visibleChildren := 0 }
  let s := (children.foldl (summarizeChild l) (empty, steps)).1
  let s :=
    if collects label then
      { s with
        errorCost := s.errorCost + recoveryCost +
          skippedByteCost * (s.stop.position.byte - s.start.position.byte) +
          skippedLineCost * (s.stop.position.row - s.start.position.row) }
    else s
  .node s children

/-- The same subtree with more dynamic precedence. -/
def addDynamic (d : Int) : Subtree σ → Subtree σ
  | .leaf l => .leaf l
  | .node s cs => .node { s with dynamic := s.dynamic + d } cs

mutual

/-- Compare two subtrees by label, then by number of children, then child by child. -/
def compare : Subtree σ → Subtree σ → Ordering
  | .leaf a, .leaf b => Ord.compare a.label.rank b.label.rank
  | .leaf a, .node s cs =>
    (Ord.compare a.label.rank s.label.rank).then (Ord.compare 0 cs.length)
  | .node s cs, .leaf b =>
    (Ord.compare s.label.rank b.label.rank).then (Ord.compare cs.length 0)
  | .node s cs, .node u ds =>
    (Ord.compare s.label.rank u.label.rank).then
      ((Ord.compare cs.length ds.length).then (compareAll cs ds))

/-- Compare two lists of subtrees from the left. -/
def compareAll : List (Subtree σ) → List (Subtree σ) → Ordering
  | c :: cs, d :: ds => (compare c d).then (compareAll cs ds)
  | _, _ => .eq

end

/-- Whether the second of two readings of the same text is to be taken : the one with fewer errors, then
with more dynamic precedence, then the one that comes first in the order of subtrees. -/
def prefersSecond (a b : Subtree σ) : Bool :=
  if b.errorCost < a.errorCost then true
  else if a.errorCost < b.errorCost then false
  else if a.dynamic < b.dynamic then true
  else if b.dynamic < a.dynamic then false
  else if 0 < a.errorCost then true
  else compare a b == .gt

/-- Split off the tokens at the end that may stand anywhere. -/
def splitExtras (ts : List (Subtree σ)) : List (Subtree σ) × List (Subtree σ) :=
  let back := ts.reverse
  ((back.dropWhile extra).reverse, (back.takeWhile extra).reverse)

end Subtree

end CodeAtlas.Syntax
