import CodeAtlas.Proofs.MarkedSubtrees

/-!
# Stacks behind a byte order mark

The parser's stack on a text with a byte order mark is that on the text without it, with all its
subtrees moved on (`Stack.withMark`). The node at its bottom stays before the mark. Two nodes
are compared by how far they have got, and two subtrees by what stands before them : so a stack
has to tell the bottom apart from all other nodes, and the subtrees on it from all others
(`Stack.Steady`). Then pushing, merging and going down are the same on both.
-/

namespace CodeAtlas

/-! ## Arrays -/

section

variable {α β : Type}

theorem getD_map (f : α → β) (xs : Array α) (i : Nat) {d : α} {d' : β} (h : f d = d') :
    (xs.map f).getD i d' = f (xs.getD i d) := by
  rw [Array.getD_eq_getD_getElem?, Array.getD_eq_getD_getElem?, Array.getElem?_map, ← h]
  cases xs[i]? <;> rfl

/-- What is done to one element and then mapped can be done after mapping. -/
theorem map_modify (f : α → β) {g : α → α} {g' : β → β} (h : ∀ a, f (g a) = g' (f a))
    (xs : Array α) (i : Nat) : (xs.map f).modify i g' = (xs.modify i g).map f := by
  apply Array.ext_getElem?
  intro j
  simp only [Array.getElem?_modify, Array.getElem?_map]
  split_ifs
  · cases xs[j]? with
    | none => rfl
    | some a => exact congrArg some (h a).symm
  · rfl

theorem map_eraseIdxIfInBounds (f : α → β) (xs : Array α) (i : Nat) :
    (xs.map f).eraseIdxIfInBounds i = (xs.eraseIdxIfInBounds i).map f := by
  apply Array.ext_getElem?
  intro j
  simp only [← Array.getElem?_toList, Array.toList_eraseIdxIfInBounds, Array.toList_map,
    List.getElem?_map, List.getElem?_eraseIdx]
  split_ifs <;> rfl

theorem map_insertIdxIfInBounds (f : α → β) (xs : Array α) (i : Nat) (a : α) :
    (xs.map f).insertIdxIfInBounds i (f a) = (xs.insertIdxIfInBounds i a).map f := by
  unfold Array.insertIdxIfInBounds
  simp only [Array.size_map]
  split_ifs
  · apply Array.ext_getElem?
    intro j
    simp only [Array.getElem?_map, Array.getElem?_insertIdx, Array.size_map]
    split_ifs <;> rfl
  · rfl

/-- A search asks only the elements there are. -/
theorem findIdx?_congr {p q : α → Bool} (xs : Array α) (h : ∀ a ∈ xs, p a = q a) :
    xs.findIdx? p = xs.findIdx? q := by
  rcases xs with ⟨xs⟩
  rw [List.findIdx?_toArray, List.findIdx?_toArray]
  induction xs with
  | nil => rfl
  | cons a xs ih =>
    have hrest := ih fun b hb => h b (by simpa using .inr (by simpa using hb))
    rw [List.findIdx?_cons, List.findIdx?_cons, h a (by simp), hrest]

theorem getD_modify (xs : Array α) (i j : Nat) (g : α → α) (d : α) :
    (xs.modify i g).getD j d = if i = j ∧ j < xs.size then g (xs.getD j d) else xs.getD j d := by
  simp only [Array.getD_eq_getD_getElem?, Array.getElem?_modify]
  by_cases hij : i = j <;> by_cases hj : j < xs.size <;> simp [hij, hj]

theorem getD_eraseIdxIfInBounds (xs : Array α) (i j : Nat) (d : α) :
    (xs.eraseIdxIfInBounds i).getD j d = if j < i then xs.getD j d else xs.getD (j + 1) d := by
  simp only [Array.getD_eq_getD_getElem?, ← Array.getElem?_toList,
    Array.toList_eraseIdxIfInBounds, List.getElem?_eraseIdx]
  split_ifs <;> rfl

theorem getD_push (xs : Array α) (a : α) (j : Nat) (d : α) :
    (xs.push a).getD j d = if j = xs.size then a else xs.getD j d := by
  simp only [Array.getD_eq_getD_getElem?, Array.getElem?_push]
  split_ifs <;> rfl

theorem getD_setIfInBounds (xs : Array α) (i j : Nat) (a d : α) :
    (xs.setIfInBounds i a).getD j d = if i = j ∧ j < xs.size then a else xs.getD j d := by
  simp only [Array.getD_eq_getD_getElem?, Array.getElem?_setIfInBounds]
  by_cases hij : i = j <;> by_cases hj : j < xs.size <;> simp [hij, hj]

end

end CodeAtlas

namespace CodeAtlas.Syntax

open CodeAtlas.Grammar CodeAtlas.Text

variable {σ : Type}

/-! ## Stacks with a mark -/

/-- A link to the same node, with its subtree moved on. -/
def Link.pastMark (link : Link σ) : Link σ :=
  { link with subtree := link.subtree.map Subtree.pastMark }

@[simp] theorem Link.node_pastMark (link : Link σ) : link.pastMark.node = link.node := rfl

theorem Link.dynamic_pastMark (link : Link σ) :
    (link.pastMark.subtree.map Subtree.dynamic).getD 0 =
      (link.subtree.map Subtree.dynamic).getD 0 := by
  rcases link with ⟨n, _ | t⟩
  · rfl
  · exact t.dynamic_pastMark

theorem Link.nodeCount_pastMark (l : Language) (link : Link σ) :
    (link.pastMark.subtree.map (Subtree.nodeCount l)).getD 0 =
      (link.subtree.map (Subtree.nodeCount l)).getD 0 := by
  rcases link with ⟨n, _ | t⟩
  · rfl
  · exact t.nodeCount_pastMark l

/-- A node of the stack. The one at the bottom stays before the mark. -/
def StackNode.withMark (n : StackNode σ) : StackNode σ :=
  { n with cursor := n.cursor.withMark, links := n.links.map Link.pastMark }

/-- What is read where no node is stays what it is. -/
theorem StackNode.withMark_default : (default : StackNode σ).withMark = default := by
  have hlinks : (default : StackNode σ).links.map Link.pastMark = #[] := Array.map_empty
  have hcursor : (default : StackNode σ).cursor.withMark = (default : StackNode σ).cursor := rfl
  rw [withMark, hlinks, hcursor]
  rfl

/-- The status of a version behind the mark. Only a token that it waits with is moved on. -/
def Status.pastMark : Status σ → Status σ
  | .active => .active
  | .paused lookahead => .paused lookahead.pastMark
  | .halted => .halted

/-- The head of a version behind the mark, on the same node. -/
def Head.pastMark (h : Head σ) : Head σ := { h with status := h.status.pastMark }

/-- Subtrees that were taken off a version, moved on. -/
def Slice.pastMark (slice : Slice σ) : Slice σ :=
  { slice with subtrees := slice.subtrees.map Subtree.pastMark }

namespace Stack

/-- The stack of a text in front of which a mark is put. -/
def withMark (s : Stack σ) : Stack σ :=
  ⟨s.nodes.map StackNode.withMark, s.heads.map Head.pastMark⟩

/-! ## What is read off a stack -/

section

variable (s : Stack σ)

@[simp] theorem size_nodes_withMark : s.withMark.nodes.size = s.nodes.size := Array.size_map

@[simp] theorem size_heads_withMark : s.withMark.heads.size = s.heads.size := Array.size_map

@[simp] theorem head_withMark (v : Nat) : s.withMark.head v = (s.head v).pastMark :=
  getD_map Head.pastMark s.heads v rfl

@[simp] theorem node_withMark (n : Nat) : s.withMark.node n = (s.node n).withMark :=
  getD_map StackNode.withMark s.nodes n StackNode.withMark_default

@[simp] theorem top_withMark (v : Nat) : s.withMark.top v = (s.top v).withMark := by
  rw [top, head_withMark, node_withMark]
  rfl

@[simp] theorem state_withMark (v : Nat) : s.withMark.state v = s.state v := by
  rw [state, top_withMark]
  rfl

/-- A version has got as far as without the mark, and the mark further unless it is at the bottom.
-/
theorem position_withMark (v : Nat) : s.withMark.position v = markedByte (s.position v) := by
  rw [position, top_withMark]
  exact Cursor.byte_withMark

@[simp] theorem isActive_withMark (v : Nat) : s.withMark.isActive v = s.isActive v := by
  rw [isActive, head_withMark, isActive, Head.pastMark]
  cases (s.head v).status <;> rfl

@[simp] theorem isHalted_withMark (v : Nat) : s.withMark.isHalted v = s.isHalted v := by
  rw [isHalted, head_withMark, isHalted, Head.pastMark]
  cases (s.head v).status <;> rfl

@[simp] theorem paused?_withMark (v : Nat) :
    s.withMark.paused? v = (s.paused? v).map Subtree.pastMark := by
  rw [paused?, head_withMark, paused?, Head.pastMark]
  cases (s.head v).status <;> rfl

/-- No cost depends on the mark. -/
@[simp] theorem errorCost_withMark (v : Nat) : s.withMark.errorCost v = s.errorCost v := by
  have hlink : (s.top v).withMark.links[0]? = (s.top v).links[0]?.map Link.pastMark :=
    Array.getElem?_map
  simp only [errorCost, top_withMark, paused?_withMark, Option.isSome_map, hlink]
  cases (s.top v).links[0]? with
  | none => rfl
  | some link =>
    simp only [Option.map_some, Link.pastMark, Option.isNone_map]
    rfl

@[simp] theorem countSinceError_withMark (v : Nat) :
    s.withMark.countSinceError v = s.countSinceError v := by
  rw [countSinceError, top_withMark, head_withMark]
  rfl

end

/-! ## Changing heads -/

section

variable (s : Stack σ)

/-- Changing a head can be done before or after the mark is put. -/
theorem modifyHead_withMark (v : Nat) {f f' : Head σ → Head σ}
    (h : ∀ a, (f a).pastMark = f' a.pastMark) :
    s.withMark.modifyHead v f' = (s.modifyHead v f).withMark :=
  congrArg (Stack.mk _) (map_modify Head.pastMark h s.heads v)

theorem clamp_withMark (v : Nat) : s.withMark.clamp v = (s.clamp v).withMark := by
  unfold clamp
  rw [top_withMark]
  exact s.modifyHead_withMark v fun _ => rfl

theorem halt_withMark (v : Nat) : s.withMark.halt v = (s.halt v).withMark :=
  s.modifyHead_withMark v fun _ => rfl

theorem pause_withMark (v : Nat) (lookahead : Subtree σ) :
    s.withMark.pause v lookahead.pastMark = (s.pause v lookahead).withMark := by
  unfold pause
  rw [top_withMark]
  exact s.modifyHead_withMark v fun _ => rfl

theorem remove_withMark (v : Nat) : s.withMark.remove v = (s.remove v).withMark :=
  congrArg (Stack.mk _) (map_eraseIdxIfInBounds Head.pastMark s.heads v)

/-- The versions behind the one that is lost move up by one. -/
theorem head_remove (v u : Nat) :
    (s.remove v).head u = if u < v then s.head u else s.head (u + 1) :=
  getD_eraseIdxIfInBounds s.heads v u default

theorem size_heads_remove (v : Nat) : (s.remove v).heads.size =
    if v < s.heads.size then s.heads.size - 1 else s.heads.size := by
  rw [remove, ← Array.length_toList, Array.toList_eraseIdxIfInBounds, List.length_eraseIdx,
    Array.length_toList]

theorem renumber_withMark (v w : Nat) : s.withMark.renumber v w = (s.renumber v w).withMark := by
  unfold renumber
  split_ifs
  · rfl
  · simp only [head_withMark]
    simp only [withMark, ← map_eraseIdxIfInBounds, Array.map_setIfInBounds]
    rfl

theorem swap_withMark (v w : Nat) : s.withMark.swap v w = (s.swap v w).withMark := by
  simp only [swap, head_withMark]
  simp only [withMark, Array.map_setIfInBounds]

theorem branch_withMark (v n : Nat) : s.withMark.branch v n = (s.branch v n).withMark := by
  simp only [branch, head_withMark]
  simp only [withMark, Array.map_push]
  rfl

theorem extract_withMark (n : Nat) :
    { s.withMark with heads := s.withMark.heads.extract 0 n } =
      withMark { s with heads := s.heads.extract 0 n } :=
  congrArg (Stack.mk _) Array.map_extract.symm

end

/-! ## Stacks that tell the bottom apart -/

/-- The place of a node, in bytes. -/
def byteAt (s : Stack σ) (n : Nat) : Nat := (s.node n).cursor.position.byte

end Stack

/-- The bytes that the mark puts between a node of the stack and what is pushed on it. -/
def markGap (byte : Nat) : Nat := if byte = 0 then 3 else 0

/-- A subtree that is pushed on a node at a byte : it does not end at the beginning of the text,
and the mark stands before it if the node is at the bottom. -/
structure Subtree.LiesOn (byte : Nat) (t : Subtree σ) : Prop where
  stop : 0 < t.stop.position.byte
  padding : t.pastMark.padding = t.padding + markGap byte

/-- A link to a node of the stack, with a subtree that lies on it. -/
structure Link.Fits (s : Stack σ) (link : Link σ) : Prop where
  node : link.node < s.nodes.size
  subtree : ∃ t, link.subtree = some t ∧ t.LiesOn (s.byteAt link.node)

namespace Stack

/-- Only the bottom of the stack is at the beginning of the text, which has no mark there, and
there are no links to go down from it. -/
structure Steady (s : Stack σ) : Prop where
  heads : ∀ v, (s.head v).node < s.nodes.size
  unmarked : ∀ n < s.nodes.size, (s.node n).cursor.Unmarked
  links : ∀ n, ∀ link ∈ (s.node n).links, 0 < s.byteAt n ∧ link.Fits s

/-- What has become of a stack by changes above its nodes : they stay where they are. -/
structure Keeps (s s' : Stack σ) : Prop where
  size : s.nodes.size ≤ s'.nodes.size
  byte : ∀ n < s.nodes.size, s'.byteAt n = s.byteAt n

theorem Keeps.refl (s : Stack σ) : s.Keeps s := ⟨Nat.le_refl _, fun _ _ => rfl⟩

theorem Keeps.of_nodes {s s' : Stack σ} (h : s'.nodes = s.nodes) : s.Keeps s' :=
  ⟨Nat.le_of_eq (by rw [h]), fun n _ => by rw [byteAt, byteAt, node, node, h]⟩

theorem Keeps.trans {s s' s'' : Stack σ} (h : s.Keeps s') (h' : s'.Keeps s'') : s.Keeps s'' :=
  ⟨Nat.le_trans h.size h'.size,
    fun n hn => (h'.byte n (Nat.lt_of_lt_of_le hn h.size)).trans (h.byte n hn)⟩

/-- A link that fits goes on fitting, as the node it leads to stays where it is. -/
theorem Keeps.fits {s s' : Stack σ} (h : s.Keeps s') {link : Link σ} (hlink : link.Fits s) :
    link.Fits s' := by
  refine ⟨Nat.lt_of_lt_of_le hlink.node h.size, ?_⟩
  rw [h.byte _ hlink.node]
  exact hlink.subtree

/-- What has become of a stack by changes above its nodes and the loss of a version. -/
structure Drops (s : Stack σ) (w : Nat) (s' : Stack σ) : Prop where
  keeps : s.Keeps s'
  size : s'.heads.size = (s.remove w).heads.size
  head : ∀ u, (s'.head u).node = ((s.remove w).head u).node

namespace Steady

variable {s : Stack σ}

theorem size_pos (h : s.Steady) : 0 < s.nodes.size := Nat.zero_lt_of_lt (h.heads 0)

/-- Other heads on the same nodes. -/
theorem withHeads (h : s.Steady) {heads : Array (Head σ)}
    (hheads : ∀ v, (heads.getD v default).node < s.nodes.size) : Steady ⟨s.nodes, heads⟩ :=
  ⟨hheads, h.unmarked, fun n link hlink => ⟨(h.links n link hlink).1,
    (h.links n link hlink).2.node, (h.links n link hlink).2.subtree⟩⟩

/-- Heads may change as long as they stay on their nodes. -/
theorem modifyHead (h : s.Steady) (v : Nat) {f : Head σ → Head σ}
    (hf : ∀ a, (f a).node = a.node) : (s.modifyHead v f).Steady := by
  refine h.withHeads fun w => ?_
  rw [getD_modify]
  split_ifs
  · rw [hf]
    exact h.heads w
  · exact h.heads w

theorem remove (h : s.Steady) (v : Nat) : (s.remove v).Steady := by
  refine h.withHeads fun w => ?_
  rw [getD_eraseIdxIfInBounds]
  split_ifs
  · exact h.heads w
  · exact h.heads (w + 1)

theorem renumber (h : s.Steady) (v w : Nat) : (s.renumber v w).Steady := by
  unfold Stack.renumber
  split_ifs
  · exact h
  · refine h.withHeads fun u => ?_
    rw [getD_eraseIdxIfInBounds, getD_setIfInBounds, getD_setIfInBounds]
    split_ifs
    · exact h.heads v
    · exact h.heads u
    · exact h.heads v
    · exact h.heads (u + 1)

theorem swap (h : s.Steady) (v w : Nat) : (s.swap v w).Steady := by
  refine h.withHeads fun u => ?_
  rw [getD_setIfInBounds, getD_setIfInBounds]
  split_ifs
  · exact h.heads v
  · exact h.heads w
  · exact h.heads u

/-- A new version may start from any node of the stack. -/
theorem branch (h : s.Steady) (v : Nat) {n : Nat} (hn : n < s.nodes.size) :
    (s.branch v n).Steady := by
  refine h.withHeads fun u => ?_
  rw [getD_push]
  split_ifs
  · exact hn
  · exact h.heads u

theorem extract (h : s.Steady) (n : Nat) :
    Steady { s with heads := s.heads.extract 0 n } := by
  refine h.withHeads fun u => ?_
  rw [Array.getD_eq_getD_getElem?, Array.getElem?_extract]
  split_ifs
  · rw [Nat.zero_add, ← Array.getD_eq_getD_getElem?]
    exact h.heads u
  · exact h.size_pos

end Steady

/-! ## Pushing -/

/-- The node on which a subtree is pushed on the top of a version. -/
def nodeOver (l : Language) (s : Stack σ) (v : Nat) (t : Subtree σ) (state : Nat) :
    StackNode σ :=
  { state, cursor := t.stop, links := #[⟨(s.head v).node, some t⟩]
    errorCost := (s.top v).errorCost + t.errorCost
    nodeCount := (s.top v).nodeCount + t.nodeCount l
    dynamic := (s.top v).dynamic + t.dynamic }

/-- Pushing adds one node and puts the head on it. -/
theorem push_eq (l : Language) (s : Stack σ) (v : Nat) (t : Subtree σ) (state : Nat) :
    s.push l v (some t) state =
      { nodes := s.nodes.push (s.nodeOver l v t state)
        heads := s.heads.modify v fun h => { h with node := s.nodes.size } } := by
  cases s
  rfl

theorem nodeOver_withMark (l : Language) (s : Stack σ) (v : Nat) {t : Subtree σ}
    (ht : 0 < t.stop.position.byte) (state : Nat) :
    s.withMark.nodeOver l v t.pastMark state = (s.nodeOver l v t state).withMark := by
  simp only [nodeOver, top_withMark, head_withMark, StackNode.withMark, Subtree.stop_pastMark,
    Subtree.errorCost_pastMark, Subtree.nodeCount_pastMark, Subtree.dynamic_pastMark,
    Cursor.withMark_of_pos ht]
  congr 1
  simp [Link.pastMark, Head.pastMark]

/-- Pushing a subtree that does not end at the beginning of the text. -/
theorem push_withMark (l : Language) (s : Stack σ) (v : Nat) {t : Subtree σ}
    (ht : 0 < t.stop.position.byte) (state : Nat) :
    s.withMark.push l v (some t.pastMark) state = (s.push l v (some t) state).withMark := by
  rw [push_eq, push_eq, nodeOver_withMark l s v ht, size_nodes_withMark]
  simp only [withMark, Array.map_push]
  congr 1
  apply map_modify
  exact fun _ => rfl

theorem node_push (l : Language) (s : Stack σ) (v : Nat) (t : Subtree σ) (state n : Nat) :
    (s.push l v (some t) state).node n =
      if n = s.nodes.size then s.nodeOver l v t state else s.node n := by
  rw [push_eq]
  exact getD_push s.nodes _ n default

theorem keeps_push (l : Language) (s : Stack σ) (v : Nat) (t : Subtree σ) (state : Nat) :
    s.Keeps (s.push l v (some t) state) where
  size := by
    rw [push_eq, Array.size_push]
    exact Nat.le_succ _
  byte n hn := by rw [byteAt, node_push, if_neg (Nat.ne_of_lt hn), byteAt]

/-- What is pushed must lie on the top, and then tells the new node from the bottom. -/
theorem Steady.push {s : Stack σ} (h : s.Steady) (l : Language) (v : Nat) {t : Subtree σ}
    (ht : t.LiesOn (s.position v)) (state : Nat) : (s.push l v (some t) state).Steady := by
  have hkeeps := keeps_push l s v t state
  have hsize : (s.push l v (some t) state).nodes.size = s.nodes.size + 1 := by
    rw [push_eq, Array.size_push]
  refine ⟨fun w => ?_, fun n hn => ?_, fun n link hlink => ?_⟩
  · rw [hsize, push_eq]
    have := h.heads w
    unfold head
    rw [getD_modify]
    split_ifs
    · exact Nat.lt_succ_self _
    · exact Nat.lt_succ_of_lt this
  · rw [node_push]
    split_ifs with hnew
    · intro hzero
      exact absurd hzero (Nat.ne_of_gt ht.stop)
    · exact h.unmarked n (by omega)
  · rw [node_push] at hlink
    rw [byteAt, node_push]
    split_ifs at hlink ⊢ with hnew
    · rw [Array.mem_singleton.mp hlink]
      refine ⟨ht.stop, Nat.lt_of_lt_of_le (h.heads v) hkeeps.size, t, rfl, ?_⟩
      rw [hkeeps.byte _ (h.heads v)]
      exact ht
    · exact ⟨(h.links n link hlink).1, hkeeps.fits (h.links n link hlink).2⟩

/-! ## Links -/

/-- What has become of a stack by changes to the links of its nodes. -/
structure Relinks (s s' : Stack σ) : Prop where
  heads : s'.heads = s.heads
  size : s'.nodes.size = s.nodes.size
  cursor : ∀ n, (s'.node n).cursor = (s.node n).cursor

namespace Relinks

variable {s s' s'' : Stack σ}

theorem refl (s : Stack σ) : s.Relinks s := ⟨rfl, rfl, fun _ => rfl⟩

theorem trans (h : s.Relinks s') (h' : s'.Relinks s'') : s.Relinks s'' :=
  ⟨h'.heads.trans h.heads, h'.size.trans h.size, fun n => (h'.cursor n).trans (h.cursor n)⟩

theorem byteAt_eq (h : s.Relinks s') (n : Nat) : s'.byteAt n = s.byteAt n := by
  rw [byteAt, h.cursor, byteAt]

theorem keeps (h : s.Relinks s') : s.Keeps s' :=
  ⟨Nat.le_of_eq h.size.symm, fun n _ => h.byteAt_eq n⟩

end Relinks

/-- Change one node. -/
def modifyNode (s : Stack σ) (n : Nat) (g : StackNode σ → StackNode σ) : Stack σ :=
  { s with nodes := s.nodes.modify n g }

theorem modifyNode_withMark (s : Stack σ) (n : Nat) {g g' : StackNode σ → StackNode σ}
    (h : ∀ m, (g m).withMark = g' m.withMark) :
    s.withMark.modifyNode n g' = (s.modifyNode n g).withMark :=
  congrArg (Stack.mk · _) (map_modify StackNode.withMark h s.nodes n)

theorem node_modifyNode (s : Stack σ) (n k : Nat) (g : StackNode σ → StackNode σ) :
    (s.modifyNode n g).node k = if n = k ∧ k < s.nodes.size then g (s.node k) else s.node k :=
  getD_modify s.nodes n k g default

/-- A node may change in all but its place. -/
theorem relinks_modifyNode (s : Stack σ) (n : Nat) {g : StackNode σ → StackNode σ}
    (hg : ∀ m, (g m).cursor = m.cursor) : s.Relinks (s.modifyNode n g) where
  heads := rfl
  size := Array.size_modify
  cursor k := by
    rw [node_modifyNode]
    split_ifs
    · exact hg _
    · rfl

/-- The links that a node gets must fit, and a node with links is not at the bottom. -/
theorem Steady.modifyNode {s : Stack σ} (h : s.Steady) (n : Nat) {g : StackNode σ → StackNode σ}
    (hg : ∀ m, (g m).cursor = m.cursor)
    (hlinks : ∀ link ∈ (g (s.node n)).links, 0 < s.byteAt n ∧ link.Fits s) :
    (s.modifyNode n g).Steady := by
  have hrelinks := relinks_modifyNode s n hg
  refine ⟨fun v => ?_, fun k hk => ?_, fun k link hlink => ?_⟩
  · rw [hrelinks.size]
    exact h.heads v
  · rw [hrelinks.cursor]
    exact h.unmarked k (by rwa [hrelinks.size] at hk)
  · rw [hrelinks.byteAt_eq]
    rw [node_modifyNode] at hlink
    split_ifs at hlink with hk
    · obtain ⟨rfl, -⟩ := hk
      exact ⟨(hlinks link hlink).1, hrelinks.keeps.fits (hlinks link hlink).2⟩
    · exact ⟨(h.links k link hlink).1, hrelinks.keeps.fits (h.links k link hlink).2⟩

/-! ## Merging -/

/-- Whether two nodes are one, or in the same state at the same place with the same cost. -/
def alike (s : Stack σ) (m n : Nat) : Bool :=
  m == n || ((s.node m).state == (s.node n).state && s.byteAt m == s.byteAt n &&
    (s.node m).errorCost == (s.node n).errorCost)

/-- Nodes are alike if they are without the mark, as only the bottom is not moved on. -/
theorem alike_withMark (s : Stack σ) (m n : Nat) : s.withMark.alike m n = s.alike m n := by
  have hbyte (k : Nat) : s.withMark.byteAt k = markedByte (s.byteAt k) := by
    rw [byteAt, node_withMark]
    exact Cursor.byte_withMark
  simp only [alike, hbyte, markedByte_beq, node_withMark]
  rfl

theorem byteAt_eq_of_alike {s : Stack σ} {m n : Nat} (h : s.alike m n = true) :
    s.byteAt m = s.byteAt n := by
  simp only [alike, Bool.or_eq_true, Bool.and_eq_true, beq_iff_eq] at h
  obtain rfl | ⟨⟨-, hbyte⟩, -⟩ := h
  · rfl
  · exact hbyte

/-- What is done to a stack is done to the stack with a mark as well. -/
structure Agrees (s done marked : Stack σ) : Prop where
  withMark : marked = done.withMark
  steady : done.Steady
  relinks : s.Relinks done

theorem Agrees.refl {s : Stack σ} (h : s.Steady) : s.Agrees s s.withMark :=
  ⟨rfl, h, .refl s⟩

/-- If adding one link does the same to both, so does adding several. -/
theorem foldl_agrees {f : Stack σ → Link σ → Stack σ} {s : Stack σ} (hs : s.Steady)
    (links : List (Link σ)) (hlinks : ∀ link ∈ links, link.Fits s)
    (hf : ∀ s' link, s'.Steady → s.Relinks s' → link ∈ links → link.Fits s' →
      s'.Agrees (f s' link) (f s'.withMark link.pastMark)) :
    s.Agrees (links.foldl f s) ((links.map Link.pastMark).foldl f s.withMark) := by
  have hrun : ∀ rest : List (Link σ), rest ⊆ links → ∀ s' : Stack σ, s'.Steady → s.Relinks s' →
      s.Agrees (rest.foldl f s') ((rest.map Link.pastMark).foldl f s'.withMark) := by
    intro rest
    induction rest with
    | nil => exact fun _ s' hs' hrelinks => ⟨rfl, hs', hrelinks⟩
    | cons link rest ih =>
      intro hsub s' hs' hrelinks
      have hmem : link ∈ links := hsub List.mem_cons_self
      have hstep := hf s' link hs' hrelinks hmem (hrelinks.keeps.fits (hlinks link hmem))
      rw [List.map_cons, List.foldl_cons, List.foldl_cons, hstep.withMark]
      exact ih (fun e he => hsub (List.mem_cons_of_mem _ he)) _ hstep.steady
        (hrelinks.trans hstep.relinks)
  exact hrun links (List.Subset.refl _) s hs (.refl s)

/-- The dynamic precedence that a link brings to its node. -/
def total (s : Stack σ) (link : Link σ) : Int :=
  (s.node link.node).dynamic + (link.subtree.map Subtree.dynamic).getD 0

theorem total_withMark (s : Stack σ) (link : Link σ) :
    s.withMark.total link.pastMark = s.total link := by
  rw [total, node_withMark, link.dynamic_pastMark]
  rfl

section

variable [BEq σ]

/-- Whether a link can be joined to another of the same node. -/
def joins (s : Stack σ) (link e : Link σ) : Bool :=
  equivalent e.subtree link.subtree && s.alike e.node link.node

/-- What stands before two subtrees is compared only if they lie on nodes in one place. -/
theorem joins_withMark {s : Stack σ} {link e : Link σ} (he : e.Fits s) (hlink : link.Fits s) :
    s.withMark.joins link.pastMark e.pastMark = s.joins link e := by
  have halike : s.withMark.alike e.pastMark.node link.pastMark.node = s.alike e.node link.node :=
    s.alike_withMark e.node link.node
  rw [joins, joins, halike]
  cases h : s.alike e.node link.node with
  | false => rw [Bool.and_false, Bool.and_false]
  | true =>
    obtain ⟨a, ha, hlies⟩ := he.subtree
    obtain ⟨b, hb, hlies'⟩ := hlink.subtree
    have hpadding : (a.pastMark.padding == b.pastMark.padding) = (a.padding == b.padding) := by
      rw [hlies.padding, hlies'.padding, byteAt_eq_of_alike h]
      simp
    simp only [Link.pastMark, ha, hb, Option.map_some, equivalent, hpadding,
      Subtree.label_pastMark, Subtree.errorCost_pastMark, Subtree.byteSize_pastMark,
      Subtree.children_pastMark, Subtree.extra_pastMark, Subtree.scanned?_pastMark,
      List.length_map]

/-- One round of adding a link, in terms of the definitions above. -/
theorem addLink_succ (l : Language) (fuel n : Nat) (link : Link σ) (s : Stack σ) :
    addLink l (fuel + 1) n link s =
      if link.node == n then s
      else
        match (s.node n).links.findIdx? (s.joins link) with
        | some i =>
          match (s.node n).links[i]? with
          | none => s
          | some e =>
            if e.node == link.node then
              if (e.subtree.map Subtree.dynamic).getD 0 <
                  (link.subtree.map Subtree.dynamic).getD 0 then
                s.modifyNode n fun m =>
                  { m with links := m.links.setIfInBounds i link, dynamic := s.total link }
              else s
            else
              ((s.node link.node).links.foldl (fun s inner => addLink l fuel e.node inner s)
                s).modifyNode n fun m => { m with dynamic := max m.dynamic (s.total link) }
        | none =>
          if (s.node n).links.size == maxLinks then s
          else
            s.modifyNode n fun m =>
              { m with
                links := m.links.push link
                nodeCount := max m.nodeCount ((s.node link.node).nodeCount +
                  (link.subtree.map (Subtree.nodeCount l)).getD 0)
                dynamic := max m.dynamic (s.total link) } :=
  rfl

/-- Adding a link to a node that is not at the bottom. -/
theorem addLink_agrees (l : Language) : ∀ (fuel n : Nat) (link : Link σ) (s : Stack σ),
    s.Steady → link.Fits s → 0 < s.byteAt n →
      s.Agrees (addLink l fuel n link s) (addLink l fuel n link.pastMark s.withMark)
  | 0, _, _, s, hs, _, _ => .refl hs
  | fuel + 1, n, link, s, hs, hlink, hn => by
    have hfind : (s.withMark.node n).links.findIdx? (s.withMark.joins link.pastMark) =
        (s.node n).links.findIdx? (s.joins link) := by
      rw [node_withMark, StackNode.withMark, Array.findIdx?_map]
      exact findIdx?_congr _ fun e he => joins_withMark (hs.links n e he).2 hlink
    rw [addLink_succ, addLink_succ, hfind, total_withMark, Link.node_pastMark]
    by_cases hown : (link.node == n) = true
    · rw [if_pos hown, if_pos hown]
      exact .refl hs
    rw [if_neg hown, if_neg hown]
    cases hi : (s.node n).links.findIdx? (s.joins link) with
    | none =>
      have hsize : (s.withMark.node n).links.size = (s.node n).links.size := by
        rw [node_withMark]
        exact Array.size_map
      have hcount : (s.withMark.node link.node).nodeCount = (s.node link.node).nodeCount := by
        rw [node_withMark]
        rfl
      simp only [hsize, hcount, link.nodeCount_pastMark]
      split_ifs
      · exact .refl hs
      · refine ⟨modifyNode_withMark s n fun m => ?_, hs.modifyNode n (fun _ => rfl) fun e he => ?_,
          relinks_modifyNode s n fun _ => rfl⟩
        · simp only [StackNode.withMark, Array.map_push]
        · rcases Array.mem_push.mp he with he | rfl
          · exact hs.links n e he
          · exact ⟨hn, hlink⟩
    | some i =>
      have hget : (s.withMark.node n).links[i]? = (s.node n).links[i]?.map Link.pastMark := by
        rw [node_withMark]
        exact Array.getElem?_map
      simp only [hget]
      cases he : (s.node n).links[i]? with
      | none => exact .refl hs
      | some e =>
        simp only [Option.map_some, Link.node_pastMark, Link.dynamic_pastMark]
        split_ifs
        · refine ⟨modifyNode_withMark s n fun m => ?_,
            hs.modifyNode n (fun _ => rfl) fun e he => ?_, relinks_modifyNode s n fun _ => rfl⟩
          · simp only [StackNode.withMark, Array.map_setIfInBounds]
          · rcases Array.mem_or_eq_of_mem_setIfInBounds he with he | rfl
            · exact hs.links n e he
            · exact ⟨hn, hlink⟩
        · exact .refl hs
        · have hjoins : s.joins link e = true := by
            have := Array.of_findIdx?_eq_some hi
            rwa [he] at this
          have hplace : s.byteAt e.node = s.byteAt link.node :=
            byteAt_eq_of_alike (Bool.and_eq_true_iff.mp hjoins).2
          -- the links below are added to a node in the same place
          have hinner := foldl_agrees (f := fun s inner => addLink l fuel e.node inner s) hs
            (s.node link.node).links.toList
            (fun inner hinner => (hs.links link.node inner (by simpa using hinner)).2)
            (fun s' inner hs' hrelinks hinner hfits => addLink_agrees l fuel e.node inner s' hs' hfits
              (by
                rw [hrelinks.byteAt_eq, hplace]
                exact (hs.links link.node inner (by simpa using hinner)).1))
          have hlinks : (s.withMark.node link.node).links =
              (s.node link.node).links.map Link.pastMark := by
            rw [node_withMark]
            rfl
          rw [← Array.toList_map, Array.foldl_toList, Array.foldl_toList, ← hlinks] at hinner
          rw [hinner.withMark]
          exact ⟨modifyNode_withMark _ n fun _ => rfl,
            hinner.steady.modifyNode n (fun _ => rfl) fun e he => hinner.steady.links n e he,
            hinner.relinks.trans (relinks_modifyNode _ n fun _ => rfl)⟩

/-- Whether versions can be merged depends on their states, costs and places. -/
theorem canMerge_withMark (s : Stack σ) (v w : Nat) :
    s.withMark.canMerge v w = s.canMerge v w := by
  have hbyte (u : Nat) : (s.top u).withMark.cursor.position.byte =
      markedByte (s.top u).cursor.position.byte := Cursor.byte_withMark
  simp only [canMerge, isActive_withMark, top_withMark, head_withMark, hbyte, markedByte_beq]
  rfl

/-- Version `v` with the links of version `w` as well. -/
def joined (l : Language) (s : Stack σ) (v w : Nat) : Stack σ :=
  let target := (s.head v).node
  let s := (s.top w).links.foldl (fun s link => addLink l 64 target link s) s
  let merged := s.node target
  if merged.state == 0 then s.modifyHead v fun h => { h with countAtError := merged.nodeCount }
  else s

theorem merge_eq (l : Language) (s : Stack σ) (v w : Nat) : s.merge l v w =
    if s.canMerge v w then (true, (s.joined l v w).remove w) else (false, s) :=
  rfl

/-- What is done to a stack above its nodes is done to the stack with a mark as well. -/
structure Matches (s done marked : Stack σ) : Prop where
  withMark : marked = done.withMark
  steady : done.Steady
  keeps : s.Keeps done

/-- The versions that are merged have got equally far, so that none is at the bottom if there is
a link to add. -/
theorem joined_matches (l : Language) {s : Stack σ} (hs : s.Steady) {v w : Nat}
    (h : s.canMerge v w = true) :
    s.Matches (s.joined l v w) (s.withMark.joined l v w) ∧
      (s.joined l v w).heads.size = s.heads.size ∧
      ∀ u, ((s.joined l v w).head u).node = (s.head u).node := by
  have hplace : s.byteAt (s.head v).node = s.byteAt (s.head w).node := by
    simp only [canMerge, Bool.and_eq_true, beq_iff_eq] at h
    exact h.1.1.2
  have hlinks : ∀ link ∈ (s.top w).links.toList, 0 < s.byteAt (s.head v).node ∧ link.Fits s := by
    intro link hlink
    rw [hplace]
    exact hs.links (s.head w).node link (Array.mem_toList_iff.mp hlink)
  have hfold := foldl_agrees (f := fun s' link => addLink l 64 (s.head v).node link s') hs
    (s.top w).links.toList (fun link hlink => (hlinks link hlink).2)
    (fun s' link hs' hrelinks hlink hfits => addLink_agrees l 64 _ link s' hs' hfits
      (by
        rw [hrelinks.byteAt_eq]
        exact (hlinks link hlink).1))
  have htop : (s.withMark.top w).links = (s.top w).links.map Link.pastMark := by
    rw [top_withMark]
    rfl
  have htarget : (s.withMark.head v).node = (s.head v).node := by
    rw [head_withMark]
    rfl
  rw [← Array.toList_map, Array.foldl_toList, Array.foldl_toList, ← htop] at hfold
  unfold joined
  simp only [htarget, hfold.withMark, node_withMark]
  generalize Array.foldl (fun s' link => addLink l 64 (s.head v).node link s') s (s.top w).links =
    s' at hfold
  have hhead (u : Nat) : (s'.head u).node = (s.head u).node := by
    rw [head, hfold.relinks.heads]
    rfl
  have hstate : ((s'.node (s.head v).node).withMark.state == 0) =
      ((s'.node (s.head v).node).state == 0) := rfl
  rw [hstate]
  split_ifs
  · refine ⟨⟨s'.modifyHead_withMark v fun _ => rfl, hfold.steady.modifyHead v fun _ => rfl,
      hfold.relinks.keeps.trans (.of_nodes rfl)⟩, ?_, fun u => ?_⟩
    · rw [modifyHead, Array.size_modify, hfold.relinks.heads]
    · rw [← hhead u, modifyHead, head, getD_modify]
      split_ifs <;> rfl
  · exact ⟨⟨rfl, hfold.steady, hfold.relinks.keeps⟩, congrArg _ hfold.relinks.heads, hhead⟩

/-- Either nothing can be merged, with the mark and without it, or the same is merged and version
`w` is lost. -/
theorem merge_cases (l : Language) {s : Stack σ} (hs : s.Steady) (v w : Nat) :
    (s.merge l v w = (false, s) ∧ s.withMark.merge l v w = (false, s.withMark)) ∨
      ∃ done, s.merge l v w = (true, done) ∧ s.withMark.merge l v w = (true, done.withMark) ∧
        done.Steady ∧ s.Drops w done := by
  rw [merge_eq, merge_eq, canMerge_withMark]
  by_cases h : s.canMerge v w = true
  · right
    obtain ⟨hmatches, hsize, hheads⟩ := joined_matches l hs h
    rw [if_pos h, if_pos h, hmatches.withMark, remove_withMark]
    generalize s.joined l v w = done at hmatches hsize hheads
    refine ⟨done.remove w, rfl, rfl, hmatches.steady.remove w,
      hmatches.keeps.trans (.of_nodes rfl), ?_, fun u => ?_⟩
    · rw [size_heads_remove, size_heads_remove, hsize]
    · rw [head_remove, head_remove]
      split_ifs
      · exact hheads u
      · exact hheads (u + 1)
  · left
    rw [if_neg h, if_neg h]
    exact ⟨rfl, rfl⟩

end

end Stack

end CodeAtlas.Syntax
