import CodeAtlas.Syntax.Node
import Mathlib.Data.List.Basic
import Mathlib.Data.List.Pairwise

/-!
# Where the nodes of a tree stand

The ranges of a syntax tree are laid out if those of the children of each node are inside
its own and follow each other (`Node.LaidOut`). Then of two nodes the later one in
`Node.preorder` is inside of the other or after it (`LaidOut.pairwise_preorder`).

`Node.spots` lists the nodes of a tree as `Node.preorder` does, each with the node around it
and the node before it there : where the tree is laid out, that one has ended where the node
starts (`LaidOut.before_stop_le`).
-/

namespace CodeAtlas.Text.Position

/-! ## Order -/

/-- Positions are compared by row, and by column in one row. -/
instance : LE Position := ⟨fun p q => p.row < q.row ∨ p.row = q.row ∧ p.column ≤ q.column⟩

instance : LT Position := ⟨fun p q => p.row < q.row ∨ p.row = q.row ∧ p.column < q.column⟩

variable {p q r : Position}

theorem le_def : p ≤ q ↔ p.row < q.row ∨ p.row = q.row ∧ p.column ≤ q.column := Iff.rfl

theorem lt_def : p < q ↔ p.row < q.row ∨ p.row = q.row ∧ p.column < q.column := Iff.rfl

instance : DecidableLE Position := fun _ _ => decidable_of_iff _ le_def.symm

instance : DecidableLT Position := fun _ _ => decidable_of_iff _ lt_def.symm

theorem le_refl (p : Position) : p ≤ p := .inr ⟨rfl, Nat.le_refl _⟩

theorem le_trans (hpq : p ≤ q) (hqr : q ≤ r) : p ≤ r := by
  rw [le_def] at *
  omega

theorem row_le (h : p ≤ q) : p.row ≤ q.row := by
  rw [le_def] at h
  omega

end CodeAtlas.Text.Position

namespace CodeAtlas.Syntax

open CodeAtlas.Text

namespace Node

/-! ## The nodes of a tree -/

variable {n m c : Node}

theorem preorderAll_eq_flatMap (cs : List Node) : preorderAll cs = cs.flatMap preorder := by
  induction cs with
  | nil => rfl
  | cons c cs ih => rw [preorderAll, ih, List.flatMap_cons]

theorem preorder_eq (n : Node) : n.preorder = n :: n.children.flatMap preorder := by
  cases n with
  | mk i cs => rw [preorder, preorderAll_eq_flatMap, children]

theorem self_mem_preorder (n : Node) : n ∈ n.preorder := by
  rw [preorder_eq]
  exact List.mem_cons_self

theorem mem_preorder_of_child (hc : c ∈ n.children) (hm : m ∈ c.preorder) :
    m ∈ n.preorder := by
  rw [preorder_eq]
  exact List.mem_cons_of_mem _ (List.mem_flatMap.mpr ⟨c, hc, hm⟩)

mutual

/-- What holds of a node if it holds of its children holds of all nodes. -/
@[elab_as_elim]
theorem children_induction {motive : Node → Prop}
    (step : ∀ n : Node, (∀ c ∈ n.children, motive c) → motive n) : ∀ n : Node, motive n
  | .mk i cs => step (.mk i cs) (forall_children_induction step cs)

theorem forall_children_induction {motive : Node → Prop}
    (step : ∀ n : Node, (∀ c ∈ n.children, motive c) → motive n) :
    ∀ cs : List Node, ∀ c ∈ cs, motive c
  | [] => fun _ hc => nomatch hc
  | d :: cs => List.forall_mem_cons.mpr
      ⟨children_induction step d, forall_children_induction step cs⟩

end

variable {root : Node}

/-- The nodes below a node of a tree are in the tree. -/
theorem preorder_subset (hn : n ∈ root.preorder) : n.preorder ⊆ root.preorder := by
  induction root using children_induction with
  | step root ih =>
    rw [preorder_eq] at hn
    rcases List.mem_cons.mp hn with rfl | hn
    · exact List.Subset.refl _
    · obtain ⟨d, hd, hn⟩ := List.mem_flatMap.mp hn
      exact fun m hm => mem_preorder_of_child hd (ih d hd hn hm)

/-- The children of a node of a tree are in the tree. -/
theorem child_mem_preorder (hn : n ∈ root.preorder) (hc : c ∈ n.children) :
    c ∈ root.preorder :=
  preorder_subset hn (mem_preorder_of_child hc (self_mem_preorder c))

/-! ## Ranges -/

/-- The range of a node has those of its children in it. -/
def Encloses (n : Node) : Prop := ∀ c ∈ n.children, n.start ≤ c.start ∧ c.stop ≤ n.stop

/-- In every node of a tree the children are in order and inside of their parent. -/
structure LaidOut (root : Node) : Prop where
  forward : ∀ n ∈ root.preorder, n.start ≤ n.stop
  encloses : ∀ n ∈ root.preorder, n.Encloses
  inOrder : ∀ n ∈ root.preorder, n.children.Pairwise fun a b => a.stop ≤ b.start

instance (n : Node) : Decidable n.Encloses :=
  inferInstanceAs (Decidable (∀ c ∈ n.children, n.start ≤ c.start ∧ c.stop ≤ n.stop))

instance (root : Node) : Decidable root.LaidOut :=
  decidable_of_iff ((∀ n ∈ root.preorder, n.start ≤ n.stop) ∧
    (∀ n ∈ root.preorder, n.Encloses) ∧
    ∀ n ∈ root.preorder, n.children.Pairwise fun a b => a.stop ≤ b.start)
    ⟨fun h => ⟨h.1, h.2.1, h.2.2⟩, fun h => ⟨h.forward, h.encloses, h.inOrder⟩⟩

/-- The tree below any node of a tree is laid out as the whole. -/
theorem LaidOut.subtree (h : root.LaidOut) (hn : n ∈ root.preorder) : n.LaidOut where
  forward m hm := h.forward m (preorder_subset hn hm)
  encloses m hm := h.encloses m (preorder_subset hn hm)
  inOrder m hm := h.inOrder m (preorder_subset hn hm)

theorem LaidOut.child (h : root.LaidOut) (hc : c ∈ root.children) : c.LaidOut :=
  h.subtree (child_mem_preorder (self_mem_preorder root) hc)

/-! ## Order of the nodes -/

/-- The nodes of a tree that is laid out are inside of it. -/
theorem LaidOut.inside (h : root.LaidOut) :
    ∀ n ∈ root.preorder, root.start ≤ n.start ∧ n.stop ≤ root.stop := by
  induction root using children_induction with
  | step root ih =>
    intro n hn
    rw [preorder_eq] at hn
    rcases List.mem_cons.mp hn with rfl | hn
    · exact ⟨Position.le_refl _, Position.le_refl _⟩
    · obtain ⟨c, hc, hn⟩ := List.mem_flatMap.mp hn
      obtain ⟨hstart, hstop⟩ := ih c hc (h.child hc) n hn
      obtain ⟨hfirst, hlast⟩ := h.encloses root (self_mem_preorder root) c hc
      exact ⟨Position.le_trans hfirst hstart, Position.le_trans hstop hlast⟩

/-- Of two children of a node, one has ended where the other starts. -/
theorem LaidOut.beside (h : root.LaidOut) (hn : n ∈ root.preorder) (hc : c ∈ n.children)
    (hm : m ∈ n.children) (hne : c ≠ m) : c.stop ≤ m.start ∨ m.stop ≤ c.start := by
  have hpairs : n.children.Pairwise fun a b => a.stop ≤ b.start ∨ b.stop ≤ a.start :=
    (h.inOrder n hn).imp .inl
  have : Std.Symm fun a b : Node => a.stop ≤ b.start ∨ b.stop ≤ a.start :=
    ⟨fun _ _ => Or.symm⟩
  exact hpairs.forall hc hm hne

/-- Whether a node stands inside a child of another or starts where that one has ended. -/
def Follows (n later : Node) : Prop :=
  (∃ c ∈ n.children, later ∈ c.preorder) ∨ n.stop ≤ later.start

/-- What comes later in a tree that is laid out is inside of what comes before, or after it. -/
theorem LaidOut.pairwise_preorder (h : root.LaidOut) : root.preorder.Pairwise Follows := by
  induction root using children_induction with
  | step root ih =>
    have hpairs := h.inOrder root (self_mem_preorder root)
    rw [preorder_eq, List.pairwise_cons, List.pairwise_flatMap]
    refine ⟨fun n hn => .inl (List.mem_flatMap.mp hn), fun c hc => ih c hc (h.child hc),
      hpairs.imp_of_mem fun {c d} hc hd hcd n hn m hm => .inr ?_⟩
    have hstop := ((h.child hc).inside n hn).2
    have hstart := ((h.child hd).inside m hm).1
    exact Position.le_trans hstop (Position.le_trans hcd hstart)

end Node

/-! ## Nodes in their surroundings -/

/-- A node in a tree, with the node around it and the one before it there. -/
structure Spot where
  parent : Option Node
  before : Option Node
  node : Node

namespace Node

mutual

/-- All nodes of a tree, each before its children, with what stands around them. -/
def spotsFrom (parent before : Option Node) : Node → List Spot
  | .mk i cs => ⟨parent, before, .mk i cs⟩ :: spotsIn (.mk i cs) none cs

/-- All nodes of the children of a node that come after a child. -/
def spotsIn (parent : Node) : Option Node → List Node → List Spot
  | _, [] => []
  | before, c :: cs => spotsFrom (some parent) before c ++ spotsIn parent (some c) cs

end

/-- All nodes of a whole tree, each before its children, with what stands around them. -/
def spots (root : Node) : List Spot := spotsFrom none none root

mutual

/-- The spots of a tree are its nodes. -/
theorem map_node_spotsFrom (parent before : Option Node) :
    ∀ n : Node, (spotsFrom parent before n).map (·.node) = n.preorder
  | .mk i cs => by rw [spotsFrom, preorder, List.map_cons, map_node_spotsIn]

theorem map_node_spotsIn (parent : Node) :
    ∀ (before : Option Node) (cs : List Node),
      (spotsIn parent before cs).map (·.node) = preorderAll cs
  | _, [] => rfl
  | before, c :: cs => by
    rw [spotsIn, preorderAll, List.map_append, map_node_spotsFrom, map_node_spotsIn]

end

theorem map_node_spots (root : Node) : root.spots.map (·.node) = root.preorder :=
  map_node_spotsFrom none none root

theorem node_mem_preorder {root : Node} {s : Spot} (hs : s ∈ root.spots) :
    s.node ∈ root.preorder := by
  rw [← map_node_spots]
  exact List.mem_map_of_mem hs

mutual

theorem LaidOut.follows_spotsFrom : ∀ {parent before : Option Node} {n : Node}, n.LaidOut →
    (∀ b, before = some b → b.stop ≤ n.start) →
    ∀ s ∈ spotsFrom parent before n, ∀ b, s.before = some b → b.stop ≤ s.node.start
  | _, _, .mk i cs, h, hbefore, s, hs => by
    rw [spotsFrom] at hs
    rcases List.mem_cons.mp hs with rfl | hs
    · exact hbefore
    · exact follows_spotsIn (fun c hc => h.child hc) (h.inOrder _ (self_mem_preorder _))
        (by simp) s hs

theorem LaidOut.follows_spotsIn : ∀ {parent : Node} {before : Option Node} {cs : List Node},
    (∀ c ∈ cs, c.LaidOut) → cs.Pairwise (fun a b => a.stop ≤ b.start) →
    (∀ b, before = some b → ∀ c ∈ cs, b.stop ≤ c.start) →
    ∀ s ∈ spotsIn parent before cs, ∀ b, s.before = some b → b.stop ≤ s.node.start
  | _, _, [], _, _, _, _, hs => nomatch hs
  | parent, before, c :: cs, h, hpairs, hbefore, s, hs => by
    rw [spotsIn] at hs
    obtain ⟨hfirst, hrest⟩ := List.pairwise_cons.mp hpairs
    rcases List.mem_append.mp hs with hs | hs
    · exact follows_spotsFrom (h c List.mem_cons_self)
        (fun b hb => hbefore b hb c List.mem_cons_self) s hs
    · refine follows_spotsIn (fun d hd => h d (List.mem_cons_of_mem _ hd)) hrest ?_ s hs
      intro b hb
      rw [← Option.some.inj hb]
      exact hfirst

end

/-- In a tree that is laid out, the node before a spot has ended where the spot starts. -/
theorem LaidOut.before_stop_le {root : Node} (h : root.LaidOut) {s : Spot}
    (hs : s ∈ root.spots) {b : Node} (hb : s.before = some b) : b.stop ≤ s.node.start :=
  h.follows_spotsFrom (by simp) s hs b hb

end Node

end CodeAtlas.Syntax
