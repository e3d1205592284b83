import CodeAtlas.Proofs.MarkedTokens
import CodeAtlas.Proofs.MovedTrees

/-!
# Subtrees behind a byte order mark

What the parser builds behind a byte order mark is what it builds without it, moved on
(`Subtree.pastMark`). Only the first token is different : the mark stands before it, so that
there are three bytes more between it and the beginning of the text, and so for every node that
begins with it. The costs, the order of two readings and the visible nodes are the same.
-/

namespace CodeAtlas.Text.Position

/-- The mark moves positions by its three bytes and by no row. -/
theorem moves_pastMark : Moves pastMark 3 0 where
  byte _ := rfl
  row _ := rfl
  column _ hp := if_neg (Nat.ne_of_gt hp)

end CodeAtlas.Text.Position

namespace CodeAtlas.Syntax

open CodeAtlas.Grammar CodeAtlas.Text

variable {σ : Type}

/-- A token behind the mark. If nothing stood between the beginning of the text and the token
but blanks, then now the mark does too. -/
def Leaf.pastMark (leaf : Leaf σ) : Leaf σ :=
  { leaf with
    start := leaf.start.pastMark
    stop := leaf.stop.pastMark
    padding :=
      if leaf.start.position.byte ≤ leaf.padding then leaf.padding + 3 else leaf.padding }

namespace Subtree

mutual

/-- A subtree behind the mark. A node has as much before it as its first child. -/
def pastMark : Subtree σ → Subtree σ
  | .leaf token => .leaf token.pastMark
  | .node s cs =>
    .node
      { s with
        start := s.start.pastMark
        stop := s.stop.pastMark
        padding := ((pastMarkAll cs).head?.map padding).getD s.padding }
      (pastMarkAll cs)

/-- Several subtrees behind the mark. -/
def pastMarkAll : List (Subtree σ) → List (Subtree σ)
  | [] => []
  | c :: cs => pastMark c :: pastMarkAll cs

end

theorem pastMarkAll_eq_map (cs : List (Subtree σ)) : pastMarkAll cs = cs.map pastMark := by
  induction cs with
  | nil => rfl
  | cons c cs ih => rw [pastMarkAll, ih, List.map_cons]

/-- The summary of a node that is moved on, with what stands before it given. -/
def movedSummary (padding : Nat) (s : Summary) : Summary :=
  { s with start := s.start.pastMark, stop := s.stop.pastMark, padding }

theorem pastMark_leaf (token : Leaf σ) : (leaf token).pastMark = .leaf token.pastMark := by
  rw [pastMark]

/-- A node that is moved on has the summary of the node, moved on. -/
theorem pastMark_node (s : Summary) (cs : List (Subtree σ)) : (node s cs).pastMark =
    .node (movedSummary (((cs.map pastMark).head?.map padding).getD s.padding) s)
      (cs.map pastMark) := by
  rw [pastMark, pastMarkAll_eq_map]
  rfl

section

variable (t : Subtree σ)

@[simp] theorem label_pastMark : t.pastMark.label = t.label := by
  cases t <;> simp only [pastMark_leaf, pastMark_node, movedSummary, label, Leaf.pastMark]

@[simp] theorem start_pastMark : t.pastMark.start = t.start.pastMark := by
  cases t <;> simp only [pastMark_leaf, pastMark_node, movedSummary, start, Leaf.pastMark]

@[simp] theorem stop_pastMark : t.pastMark.stop = t.stop.pastMark := by
  cases t <;> simp only [pastMark_leaf, pastMark_node, movedSummary, stop, Leaf.pastMark]

@[simp] theorem extra_pastMark : t.pastMark.extra = t.extra := by
  cases t <;> simp only [pastMark_leaf, pastMark_node, movedSummary, extra, Leaf.pastMark]

@[simp] theorem errorCost_pastMark : t.pastMark.errorCost = t.errorCost := by
  cases t <;> simp only [pastMark_leaf, pastMark_node, movedSummary, errorCost, Leaf.pastMark]

@[simp] theorem dynamic_pastMark : t.pastMark.dynamic = t.dynamic := by
  cases t <;> simp only [pastMark_leaf, pastMark_node, movedSummary, dynamic]

@[simp] theorem visibleDescendants_pastMark :
    t.pastMark.visibleDescendants = t.visibleDescendants := by
  cases t <;> simp only [pastMark_leaf, pastMark_node, movedSummary, visibleDescendants]

@[simp] theorem visibleChildren_pastMark : t.pastMark.visibleChildren = t.visibleChildren := by
  cases t <;> simp only [pastMark_leaf, pastMark_node, movedSummary, visibleChildren]

@[simp] theorem children_pastMark : t.pastMark.children = t.children.map pastMark := by
  cases t <;> simp only [pastMark_leaf, pastMark_node, children, List.map_nil]

@[simp] theorem scanned?_pastMark : t.pastMark.scanned? = t.scanned? := by
  cases t <;> simp only [pastMark_leaf, pastMark_node, scanned?, Leaf.pastMark]

@[simp] theorem byteSize_pastMark : t.pastMark.byteSize = t.byteSize := by
  simp only [byteSize, start_pastMark, stop_pastMark, Cursor.position_pastMark,
    Position.byte_pastMark, Nat.add_sub_add_right]

@[simp] theorem isError_pastMark : t.pastMark.isError = t.isError := by
  rw [isError, label_pastMark, isError]

@[simp] theorem nodeCount_pastMark (l : Language) : t.pastMark.nodeCount l = t.nodeCount l := by
  simp only [nodeCount, visibleDescendants_pastMark, label_pastMark]

/-- What an error covers costs the same, as costs count bytes and rows and not where they are. -/
theorem coveredCost_pastMark (l : Language) : coveredCost l t.pastMark = coveredCost l t := by
  simp only [coveredCost, extra_pastMark, isError_pastMark, children_pastMark, label_pastMark,
    visibleChildren_pastMark, List.isEmpty_map]

theorem withExtra_pastMark (extra : Bool) :
    t.pastMark.withExtra extra = (t.withExtra extra).pastMark := by
  cases t <;> simp only [pastMark_leaf, pastMark_node, movedSummary, withExtra, Leaf.pastMark]

theorem addDynamic_pastMark (d : Int) :
    t.pastMark.addDynamic d = (t.addDynamic d).pastMark := by
  cases t <;> simp only [pastMark_leaf, pastMark_node, movedSummary, addDynamic]

end

/-! ## Nodes over children -/

/-- The summary of a node before its children are taken into it. -/
def emptySummary (label : Label) (production : Option Nat) (start stop : Cursor) (padding : Nat) :
    Summary :=
  ⟨label, production, start, stop, padding, false, 0, 0, 0, 0⟩

/-- The steps of a production. -/
def stepsOf (l : Language) : Option Nat → List Step
  | some p => (l.productions.getD p default).steps
  | none => []

/-- The summary with the cost of the text, if the node collects what an error covers. -/
def charged (label : Label) (s : Summary) : Summary :=
  if collects label then
    { s with
      errorCost := s.errorCost + recoveryCost +
        skippedByteCost * (s.stop.position.byte - s.start.position.byte) +
        skippedLineCost * (s.stop.position.row - s.start.position.row) }
  else s

/-- A node is summed up child by child, from its first child or from the place it is made in. -/
theorem make_eq (l : Language) (label : Label) (production : Option Nat) (place : Cursor)
    (cs : List (Subtree σ)) :
    make l label production place cs = .node (charged label (cs.foldl (summarizeChild l)
      (emptySummary label production ((cs.head?.map start).getD place) place
        ((cs.head?.map padding).getD 0), stepsOf l production)).1) cs := by
  cases production <;> rfl

/-- The cost of a text is that of its bytes and rows, which keep their distances. -/
theorem charged_movedSummary (label : Label) (padding : Nat) (s : Summary) :
    charged label (movedSummary padding s) = movedSummary padding (charged label s) := by
  simp only [charged, movedSummary, Cursor.position_pastMark, Position.byte_pastMark,
    Position.row_pastMark, Nat.add_sub_add_right]
  split_ifs <;> rfl

theorem padding_charged (label : Label) (s : Summary) : (charged label s).padding = s.padding := by
  unfold charged
  split_ifs <;> rfl

/-- Whatever place the summary has, the child gives it the place where it ends. -/
theorem summarizeChild_pastMark (l : Language) (stop : Cursor) (padding : Nat) (s : Summary)
    (steps : List Step) (child : Subtree σ) :
    summarizeChild l ({ movedSummary padding s with stop }, steps) child.pastMark =
      Prod.map (movedSummary padding) id (summarizeChild l (s, steps) child) := by
  simp only [summarizeChild, extra_pastMark, label_pastMark, visibleChildren_pastMark,
    errorCost_pastMark, coveredCost_pastMark, stop_pastMark, dynamic_pastMark,
    visibleDescendants_pastMark, Prod.map, movedSummary, id]

/-- All children together, the place of the node being moved on before the first of them. -/
theorem foldl_summarizeChild_pastMark (l : Language) (padding : Nat) (s : Summary)
    (steps : List Step) (cs : List (Subtree σ)) :
    (cs.map pastMark).foldl (summarizeChild l) (movedSummary padding s, steps) =
      Prod.map (movedSummary padding) id (cs.foldl (summarizeChild l) (s, steps)) := by
  induction cs generalizing s steps with
  | nil => rfl
  | cons c cs ih =>
    have hstep : summarizeChild l (movedSummary padding s, steps) c.pastMark =
        Prod.map (movedSummary padding) id (summarizeChild l (s, steps) c) :=
      summarizeChild_pastMark l s.stop.pastMark padding s steps c
    rw [List.map_cons, List.foldl_cons, List.foldl_cons, hstep]
    exact ih _ _

/-- A node over children that are moved on is moved on. Its place is asked for only if it has
none. -/
theorem make_pastMark (l : Language) (label : Label) (production : Option Nat)
    {place place' : Cursor} {cs : List (Subtree σ)} (h : cs = [] → place' = place.pastMark) :
    make l label production place' (cs.map pastMark) =
      (make l label production place cs).pastMark := by
  rw [make_eq, make_eq, pastMark_node]
  congr 1
  cases cs with
  | nil =>
    simp only [List.map_nil, List.foldl_nil, List.head?_nil, Option.map_none, Option.getD_none,
      padding_charged, h rfl]
    exact charged_movedSummary label 0 (emptySummary label production place place 0)
  | cons c cs =>
    have hempty : emptySummary label production c.pastMark.start place' c.pastMark.padding =
        { movedSummary c.pastMark.padding
            (emptySummary label production c.start place c.padding) with stop := place' } := by
      rw [start_pastMark]
      rfl
    simp only [List.map_cons, List.foldl_cons, List.head?_cons, Option.map_some,
      Option.getD_some]
    rw [hempty, summarizeChild_pastMark]
    simp only [Prod.map, id, foldl_summarizeChild_pastMark, charged_movedSummary]

/-! ## Comparing subtrees -/

mutual

/-- Two readings are compared by their symbols and children. -/
theorem compare_pastMark : ∀ a b : Subtree σ, compare a.pastMark b.pastMark = compare a b
  | .leaf a, .leaf b => by
    simp only [pastMark, compare, Leaf.pastMark]
  | .leaf a, .node s cs => by
    simp only [pastMark, compare, Leaf.pastMark, pastMarkAll_eq_map, List.length_map]
  | .node s cs, .leaf b => by
    simp only [pastMark, compare, Leaf.pastMark, pastMarkAll_eq_map, List.length_map]
  | .node s cs, .node u ds => by
    rw [pastMark, pastMark, compare, compare, compareAll_pastMark cs ds]
    simp only [pastMarkAll_eq_map, List.length_map]

theorem compareAll_pastMark : ∀ cs ds : List (Subtree σ),
    compareAll (pastMarkAll cs) (pastMarkAll ds) = compareAll cs ds
  | [], _ => by simp only [pastMarkAll, compareAll]
  | _ :: _, [] => by simp only [pastMarkAll, compareAll]
  | c :: cs, d :: ds => by
    rw [pastMarkAll, pastMarkAll, compareAll, compareAll, compare_pastMark c d,
      compareAll_pastMark cs ds]

end

/-- Of two readings the same one is preferred. -/
theorem prefersSecond_pastMark (a b : Subtree σ) :
    a.pastMark.prefersSecond b.pastMark = a.prefersSecond b := by
  simp only [prefersSecond, errorCost_pastMark, dynamic_pastMark, compare_pastMark]

/-- Which subtrees are extras at the end does not change. -/
theorem splitExtras_pastMark (ts : List (Subtree σ)) :
    splitExtras (ts.map pastMark) =
      Prod.map (List.map pastMark) (List.map pastMark) (splitExtras ts) := by
  have hextra : extra ∘ pastMark = (extra : Subtree σ → Bool) := funext extra_pastMark
  simp only [splitExtras, ← List.map_reverse, List.dropWhile_map, List.takeWhile_map, hextra,
    Prod.map]

end Subtree

/-! ## Visible nodes -/

section

variable (l : Language)

/-- The text of a node is the same text behind the mark. -/
theorem nodeInfo_pastMark (showing : Showing) (kind : String × Bool) (extra broken : Bool)
    (start stop : Cursor) :
    nodeInfo showing kind extra broken start.pastMark stop.pastMark =
      (nodeInfo showing kind extra broken start stop).moved Position.pastMark := by
  simp only [nodeInfo, NodeInfo.moved, Cursor.position_pastMark, Position.byte_pastMark,
    textUpTo_pastMark]

mutual

/-- The visible nodes of a subtree are the same nodes, moved on. -/
theorem nodesBefore_pastMark (showing : Showing) : ∀ (t : Subtree σ) (after : List Node),
    nodesBefore l showing t.pastMark (after.map (Node.moved Position.pastMark)) =
      (nodesBefore l showing t after).map (Node.moved Position.pastMark)
  | .leaf token, after => by
    simp only [Subtree.pastMark, nodesBefore, Leaf.pastMark]
    cases kindOf? l showing token.extra token.label with
    | none => rfl
    | some kind =>
      simp only [nodeInfo_pastMark, List.map_cons, Node.moved, Node.movedAll]
  | .node s cs, after => by
    simp only [Subtree.pastMark, nodesBefore]
    cases kindOf? l showing s.extra s.label with
    | none => exact allNodesBefore_pastMark _ cs after
    | some kind =>
      have hinner := allNodesBefore_pastMark (showings l s.production none) cs []
      rw [List.map_nil] at hinner
      simp only [nodeInfo_pastMark, hinner, List.map_cons, Node.moved, Node.movedAll_eq_map]

theorem allNodesBefore_pastMark : ∀ (steps : List Showing) (cs : List (Subtree σ))
    (after : List Node),
    allNodesBefore l steps (Subtree.pastMarkAll cs) (after.map (Node.moved Position.pastMark)) =
      (allNodesBefore l steps cs after).map (Node.moved Position.pastMark)
  | _, [], _ => by simp only [Subtree.pastMarkAll, allNodesBefore]
  | steps, c :: cs, after => by
    rw [Subtree.pastMarkAll, allNodesBefore, allNodesBefore, Subtree.extra_pastMark,
      allNodesBefore_pastMark steps cs after, allNodesBefore_pastMark (steps.drop 1) cs after,
      nodesBefore_pastMark, nodesBefore_pastMark]
    split_ifs <;> rfl

end

/-- So the tree that is made of a reading is the tree without the mark, moved on. -/
theorem nodesOf_pastMark (showing : Showing) (t : Subtree σ) :
    nodesOf l showing t.pastMark = (nodesOf l showing t).map (Node.moved Position.pastMark) :=
  nodesBefore_pastMark l showing t []

end

end CodeAtlas.Syntax
