import CodeAtlas.Proofs.Lists
import CodeAtlas.Proofs.MarkedStacks

/-!
# Going down behind a byte order mark

Going down from a version follows the same links with a mark as without it (`popCount_withMark`,
`popAll_withMark`), whatever the stack is. What is taken from a steady stack is known by the node
that it lay on : the lowest subtree has the mark before it if that node is the bottom, and no
other subtree has (`popCount_taken`). The slices come in the order of their versions, so that
what is taken can be put back one version after another.
-/

namespace CodeAtlas.Syntax

open CodeAtlas.Grammar CodeAtlas.Text

variable {σ : Type}

namespace Stack

/-! ## One step down -/

/-- A way down the stack, with the subtrees on it moved on. -/
def Way.pastMark (w : Way σ) : Way σ := { w with subtrees := w.subtrees.map Subtree.pastMark }

theorem Way.follow_pastMark (w : Way σ) (link : Link σ) :
    w.pastMark.follow link.pastMark = (w.follow link).pastMark := by
  rcases link with ⟨n, _ | t⟩
  · rfl
  · simp [Way.follow, Way.pastMark, Link.pastMark]

/-- The ways along a part of the links of the node that a way has come to. -/
def further (s : Stack σ) (part : List (Link σ) → List (Link σ)) (w : Way σ) : List (Way σ) :=
  (part (s.node w.node).links.toList).map w.follow

/-- What one way adds to the ways that end, that go on and that branch off, in reverse. -/
def takeStep (s : Stack σ) (stops : Way σ → Bool)
    (acc : List (Way σ) × List (Way σ) × List (Way σ)) (w : Way σ) :
    List (Way σ) × List (Way σ) × List (Way σ) :=
  let (ended, kept, added) := acc
  if stops w then (w :: ended, kept, added)
  else
    match (s.node w.node).links.toList with
    | [] => acc
    | first :: others => (ended, w.follow first :: kept, (others.map w.follow).reverse ++ added)

theorem takeStep_eq (s : Stack σ) (stops : Way σ → Bool) (ended kept added : List (Way σ))
    (w : Way σ) : s.takeStep stops (ended, kept, added) w =
      if stops w then (w :: ended, kept, added)
      else (ended, (s.further (List.take 1) w).reverse ++ kept,
        (s.further (List.drop 1) w).reverse ++ added) := by
  by_cases hw : stops w = true
  · simp [takeStep, hw]
  · cases hlinks : (s.node w.node).links.toList <;> simp [takeStep, hw, further, hlinks]

/-- Taking a step on all ways, in the order in which they are listed. -/
theorem foldl_takeStep (s : Stack σ) (stops : Way σ → Bool) :
    ∀ (ways ended kept added : List (Way σ)),
      ways.foldl (s.takeStep stops) (ended, kept, added) =
        ((ways.filter stops).reverse ++ ended,
          ((ways.filter (!stops ·)).flatMap (s.further (List.take 1))).reverse ++ kept,
          ((ways.filter (!stops ·)).flatMap (s.further (List.drop 1))).reverse ++ added) := by
  intro ways
  induction ways with
  | nil => exact fun _ _ _ => rfl
  | cons w ways ih =>
    intro ended kept added
    rw [List.foldl_cons, takeStep_eq]
    by_cases hw : stops w = true <;> simp [hw, ih]

/-- Of the ways that go on, all go along the first link of their node, and then those along its
other links are added. -/
theorem descend_eq (s : Stack σ) (stops : Way σ → Bool) (ways : List (Way σ)) :
    s.descend stops ways =
      let going := ways.filter (!stops ·)
      (ways.filter stops,
        (going.flatMap (s.further (List.take 1)) ++ going.flatMap (s.further (List.drop 1))).take
          maxWays) := by
  have hfold := s.foldl_takeStep stops ways [] [] []
  simp only [List.append_nil] at hfold
  have hdescend : s.descend stops ways =
      let acc := ways.foldl (s.takeStep stops) ([], [], [])
      (acc.1.reverse, (acc.2.1.reverse ++ acc.2.2.reverse).take maxWays) := rfl
  simp only [hdescend, hfold, List.reverse_reverse]

theorem further_withMark (s : Stack σ) (part : ∀ {α : Type}, List α → List α)
    (hpart : ∀ {α β : Type} (f : α → β) (xs : List α), part (xs.map f) = (part xs).map f)
    (w : Way σ) : s.withMark.further part w.pastMark = (s.further part w).map Way.pastMark := by
  have hlinks : (s.withMark.node w.pastMark.node).links.toList =
      (s.node w.node).links.toList.map Link.pastMark := by
    rw [node_withMark]
    exact Array.toList_map
  rw [further, hlinks, hpart, further, List.map_map, List.map_map]
  exact List.map_congr_left fun link _ => w.follow_pastMark link

/-- Ways that stop alike go down alike. -/
theorem descend_withMark (s : Stack σ) {stops stops' : Way σ → Bool}
    (h : ∀ w, stops' w.pastMark = stops w) (ways : List (Way σ)) :
    s.withMark.descend stops' (ways.map Way.pastMark) =
      Prod.map (List.map Way.pastMark) (List.map Way.pastMark) (s.descend stops ways) := by
  have hstops : stops' ∘ Way.pastMark = stops := funext h
  have hgoing : (fun w => !stops' w) ∘ Way.pastMark = fun w => !stops w :=
    funext fun w => congrArg _ (h w)
  have htake (w : Way σ) := s.further_withMark (List.take 1) (fun _ _ => List.map_take.symm) w
  have hdrop (w : Way σ) := s.further_withMark (List.drop 1) (fun _ _ => List.map_drop.symm) w
  simp only [descend_eq, List.filter_map, hstops, hgoing, List.flatMap_map, htake, hdrop,
    ← List.map_flatMap, ← List.map_append, ← List.map_take, Prod.map]

/-- A way that is left has stopped, or has gone along one link more. -/
theorem mem_descend {s : Stack σ} {stops : Way σ → Bool} {ways : List (Way σ)} {w : Way σ} :
    (w ∈ (s.descend stops ways).1 → w ∈ ways ∧ stops w = true) ∧
      (w ∈ (s.descend stops ways).2 → ∃ u ∈ ways, stops u = false ∧
        ∃ link ∈ (s.node u.node).links, w = u.follow link) := by
  rw [descend_eq]
  refine ⟨fun h => List.mem_filter.mp h, fun h => ?_⟩
  rcases List.mem_append.mp (List.mem_of_mem_take h) with h | h <;>
    obtain ⟨u, hu, hw⟩ := List.mem_flatMap.mp h <;>
    obtain ⟨link, hlink, rfl⟩ := List.mem_map.mp hw <;>
    obtain ⟨hu, hstops⟩ := List.mem_filter.mp hu <;>
    refine ⟨u, hu, by simpa using hstops, link, ?_, rfl⟩
  · exact Array.mem_toList_iff.mp (List.mem_of_mem_take hlink)
  · exact Array.mem_toList_iff.mp (List.mem_of_mem_drop hlink)

/-! ## Slices -/

theorem addSlice_withMark (v : Nat) (slices : Array (Slice σ)) (s : Stack σ) (w : Way σ) :
    addSlice v (slices.map Slice.pastMark, s.withMark) w.pastMark =
      Prod.map (Array.map Slice.pastMark) withMark (addSlice v (slices, s) w) := by
  have hsame : (fun slice : Slice σ => (s.withMark.head slice.version).node == w.node) ∘
      Slice.pastMark = fun slice => (s.head slice.version).node == w.node := by
    funext slice
    rw [Function.comp_apply, head_withMark]
    rfl
  have hfind : (slices.map Slice.pastMark).toList.reverse.findIdx?
        (fun slice => (s.withMark.head slice.version).node == w.pastMark.node) =
      slices.toList.reverse.findIdx? fun slice => (s.head slice.version).node == w.node := by
    rw [Array.toList_map, ← List.map_reverse, List.findIdx?_map]
    exact congrArg (List.findIdx? · _) hsame
  simp only [addSlice, hfind, Array.size_map, Array.getElem?_map, size_heads_withMark]
  cases slices.toList.reverse.findIdx? fun slice => (s.head slice.version).node == w.node with
  | none =>
    simp only [Prod.map, Array.map_push]
    rw [← branch_withMark]
    rfl
  | some i =>
    dsimp only
    cases slices[slices.size - 1 - i]? with
    | none => rfl
    | some slice =>
      exact congrArg (·, s.withMark) (map_insertIdxIfInBounds Slice.pastMark slices
        (slices.size - i) ⟨w.subtrees, slice.version⟩)

/-- All ways end alike, and so do the slices they leave. -/
theorem popLoop_withMark (v : Nat) (stops : Stack σ → Way σ → Bool)
    (h : ∀ s w, stops s.withMark w.pastMark = stops s w) :
    ∀ (fuel : Nat) (ways : List (Way σ)) (slices : Array (Slice σ)) (s : Stack σ),
      popLoop v stops fuel (ways.map Way.pastMark) (slices.map Slice.pastMark, s.withMark) =
        Prod.map (Array.map Slice.pastMark) withMark (popLoop v stops fuel ways (slices, s)) := by
  intro fuel
  induction fuel with
  | zero => exact fun _ _ _ => rfl
  | succ fuel ih =>
    intro ways slices s
    cases ways with
    | nil => rfl
    | cons w ways =>
      have hfold : ∀ (ended : List (Way σ)) (acc : Array (Slice σ) × Stack σ),
          (ended.map Way.pastMark).foldl (addSlice v)
            (Prod.map (Array.map Slice.pastMark) withMark acc) =
          Prod.map (Array.map Slice.pastMark) withMark (ended.foldl (addSlice v) acc) := by
        intro ended
        induction ended with
        | nil => exact fun _ => rfl
        | cons e ended ih =>
          intro acc
          rw [List.map_cons, List.foldl_cons, List.foldl_cons, Prod.map,
            addSlice_withMark, ih]
      have hdown := s.descend_withMark (h s) (w :: ways)
      rw [List.map_cons] at hdown ⊢
      rw [popLoop, popLoop, hdown]
      · exact (congrArg _ (hfold _ (slices, s))).trans (ih _ _ _)
      · simp
      · simp

theorem popCount_withMark (s : Stack σ) (v count : Nat) :
    s.withMark.popCount v count =
      Prod.map (Array.map Slice.pastMark) withMark (s.popCount v count) := by
  have hrun := popLoop_withMark v (fun _ w => w.depth == count) (fun _ _ => rfl)
    (s.nodes.size + 1) [⟨(s.head v).node, [], 0⟩] #[] s
  rw [Array.map_empty] at hrun
  rw [popCount, popCount, ← hrun, size_nodes_withMark, head_withMark]
  rfl

theorem popAll_withMark (s : Stack σ) (v : Nat) :
    s.withMark.popAll v = Prod.map (Array.map Slice.pastMark) withMark (s.popAll v) := by
  have hstops (s : Stack σ) (w : Way σ) :
      (s.withMark.node w.pastMark.node).links.isEmpty = (s.node w.node).links.isEmpty := by
    rw [node_withMark, Array.isEmpty, StackNode.withMark, Array.size_map]
    rfl
  have hrun := popLoop_withMark v (fun s w => (s.node w.node).links.isEmpty) hstops
    (s.nodes.size + 1) [⟨(s.head v).node, [], 0⟩] #[] s
  rw [Array.map_empty] at hrun
  rw [popAll, popAll, ← hrun, size_nodes_withMark, head_withMark]
  rfl

/-! ## What is taken from a steady stack -/

/-- A way that ends where another has ended adds to its version, and otherwise it opens a new
one. -/
theorem addSlice_cases (v : Nat) (slices : Array (Slice σ)) (s : Stack σ) (w : Way σ) :
    (∃ i slice, slices[i]? = some slice ∧ (s.head slice.version).node = w.node ∧
      addSlice v (slices, s) w =
        (slices.insertIdxIfInBounds (i + 1) ⟨w.subtrees, slice.version⟩, s)) ∨
      addSlice v (slices, s) w = (slices.push ⟨w.subtrees, s.heads.size⟩, s.branch v w.node) := by
  unfold addSlice
  dsimp only
  cases hfind : slices.toList.reverse.findIdx? fun slice =>
      (s.head slice.version).node == w.node with
  | none => exact .inr rfl
  | some i =>
    left
    obtain ⟨hi, hsame, -⟩ := List.findIdx?_eq_some_iff_getElem.mp hfind
    simp only [List.getElem_reverse, Array.getElem_toList, Array.length_toList,
      beq_iff_eq] at hsame
    rw [List.length_reverse, Array.length_toList] at hi
    have hplace : slices.size - 1 - i < slices.size := by omega
    have hafter : slices.size - 1 - i + 1 = slices.size - i := by omega
    refine ⟨slices.size - 1 - i, _, Array.getElem?_eq_getElem hplace, hsame, ?_⟩
    dsimp only
    rw [Array.getElem?_eq_getElem hplace, hafter]

/-- Slices in the order of their versions, each `good` for the node that its version is left
at. -/
structure Collected (good : Nat → List (Subtree σ) → Prop) (slices : Array (Slice σ))
    (s : Stack σ) : Prop where
  sorted : (slices.toList.map Slice.version).Pairwise (· ≤ ·)
  version : ∀ slice ∈ slices, slice.version < s.heads.size
  good : ∀ slice ∈ slices, good (s.head slice.version).node slice.subtrees

theorem Collected.empty (good : Nat → List (Subtree σ) → Prop) (s : Stack σ) :
    Collected good #[] s :=
  ⟨.nil, fun _ h => absurd h (Array.not_mem_empty _), fun _ h => absurd h (Array.not_mem_empty _)⟩

/-- Slices stay in the order of their versions, as a new one is put behind those of its version or
at the end. -/
theorem Collected.addSlice {good : Nat → List (Subtree σ) → Prop} {slices : Array (Slice σ)}
    {s : Stack σ} (h : Collected good slices s) (v : Nat) {w : Way σ}
    (hw : good w.node w.subtrees) :
    Collected good (Stack.addSlice v (slices, s) w).1 (Stack.addSlice v (slices, s) w).2 := by
  rcases addSlice_cases v slices s w with ⟨i, slice, hget, hnode, heq⟩ | heq
  · have hmem : slice ∈ slices := Array.mem_of_getElem? hget
    have hplace : i + 1 ≤ slices.size := (Array.getElem?_eq_some_iff.mp hget).1
    have hnew : ∀ e ∈ slices.insertIdxIfInBounds (i + 1) ⟨w.subtrees, slice.version⟩,
        e = ⟨w.subtrees, slice.version⟩ ∨ e ∈ slices := by
      intro e he
      rw [Array.insertIdxIfInBounds, dif_pos hplace] at he
      exact Array.mem_insertIdx.mp he
    rw [heq]
    refine ⟨?_, fun e he => ?_, fun e he => ?_⟩
    · rw [Array.insertIdxIfInBounds, dif_pos hplace, Array.toList_insertIdx, List.map_insertIdx]
      refine pairwise_insertIdx_succ h.sorted ?_
      rw [List.getElem?_map, Array.getElem?_toList, hget]
      rfl
    · rcases hnew e he with rfl | he
      · exact h.version slice hmem
      · exact h.version e he
    · rcases hnew e he with rfl | he
      · rw [hnode]
        exact hw
      · exact h.good e he
  · have hsize : (s.branch v w.node).heads.size = s.heads.size + 1 := Array.size_push _
    have hhead (u : Nat) : ((s.branch v w.node).head u).node =
        if u = s.heads.size then w.node else (s.head u).node := by
      rw [branch, head, getD_push]
      split_ifs <;> rfl
    rw [heq]
    refine ⟨?_, fun e he => ?_, fun e he => ?_⟩
    · rw [Array.toList_push, List.map_append, List.pairwise_append]
      refine ⟨h.sorted, List.pairwise_singleton _ _, fun a ha b hb => ?_⟩
      obtain ⟨e, he, rfl⟩ := List.mem_map.mp ha
      obtain rfl : b = s.heads.size := by simpa using hb
      exact Nat.le_of_lt (h.version e (Array.mem_toList_iff.mp he))
    · rw [hsize]
      rcases Array.mem_push.mp he with he | rfl
      · exact Nat.lt_succ_of_lt (h.version e he)
      · exact Nat.lt_succ_self _
    · rw [hhead]
      rcases Array.mem_push.mp he with he | rfl
      · rw [if_neg (Nat.ne_of_lt (h.version e he))]
        exact h.good e he
      · rw [if_pos rfl]
        exact hw

theorem nodes_addSlice (v : Nat) (slices : Array (Slice σ)) (s : Stack σ) (w : Way σ) :
    (addSlice v (slices, s) w).2.nodes = s.nodes := by
  rcases addSlice_cases v slices s w with ⟨_, _, -, -, heq⟩ | heq <;> rw [heq]
  rfl

theorem Steady.addSlice {s : Stack σ} (hs : s.Steady) (v : Nat) (slices : Array (Slice σ))
    {w : Way σ} (hw : w.node < s.nodes.size) : (Stack.addSlice v (slices, s) w).2.Steady := by
  rcases addSlice_cases v slices s w with ⟨_, _, -, -, heq⟩ | heq <;> rw [heq]
  · exact hs
  · exact hs.branch v hw

/-- What holds along the ways down from a steady stack holds of all that is taken from it. -/
theorem popLoop_collected (good : Nat → List (Subtree σ) → Prop) (along : Way σ → Prop)
    (nodes : Array (StackNode σ)) (v : Nat) (stops : Stack σ → Way σ → Bool)
    (hnode : ∀ w, along w → w.node < nodes.size)
    (hend : ∀ heads w, along w → stops ⟨nodes, heads⟩ w = true → good w.node w.subtrees)
    (hfollow : ∀ heads w, along w → stops ⟨nodes, heads⟩ w = false →
      ∀ link ∈ (nodes.getD w.node default).links, along (w.follow link)) :
    ∀ (fuel : Nat) (ways : List (Way σ)) (slices : Array (Slice σ)) (s : Stack σ),
      (∀ w ∈ ways, along w) → s.nodes = nodes → s.Steady → Collected good slices s →
      (popLoop v stops fuel ways (slices, s)).2.nodes = nodes ∧
        (popLoop v stops fuel ways (slices, s)).2.Steady ∧
        Collected good (popLoop v stops fuel ways (slices, s)).1
          (popLoop v stops fuel ways (slices, s)).2 := by
  intro fuel
  induction fuel with
  | zero => exact fun ways slices s _ hn hs hc => ⟨hn, hs, hc⟩
  | succ fuel ih =>
    intro ways slices s hways hn hs hc
    cases ways with
    | nil => exact ⟨hn, hs, hc⟩
    | cons w ways =>
      have hfold : ∀ ended : List (Way σ), (∀ e ∈ ended, along e ∧ good e.node e.subtrees) →
          ∀ acc : Array (Slice σ) × Stack σ, acc.2.nodes = nodes → acc.2.Steady →
          Collected good acc.1 acc.2 →
          (ended.foldl (addSlice v) acc).2.nodes = nodes ∧
            (ended.foldl (addSlice v) acc).2.Steady ∧
            Collected good (ended.foldl (addSlice v) acc).1 (ended.foldl (addSlice v) acc).2 := by
        intro ended
        induction ended with
        | nil => exact fun _ acc hn hs hc => ⟨hn, hs, hc⟩
        | cons e ended ih =>
          intro hended acc hn hs hc
          obtain ⟨halong, hgood⟩ := hended e List.mem_cons_self
          rw [List.foldl_cons]
          refine ih (fun e he => hended e (List.mem_cons_of_mem _ he)) _
            ((nodes_addSlice v acc.1 acc.2 e).trans hn) (hs.addSlice v acc.1 ?_) (hc.addSlice v hgood)
          rw [hn]
          exact hnode e halong
      have hstack : s = ⟨nodes, s.heads⟩ := by rw [← hn]
      rw [popLoop]
      · obtain ⟨hn', hs', hc'⟩ := hfold (s.descend (stops s) (w :: ways)).1
          (fun e he => by
            obtain ⟨he, hstops⟩ := mem_descend.1 he
            rw [hstack] at hstops
            exact ⟨hways e he, hend _ e (hways e he) hstops⟩)
          (slices, s) hn hs hc
        refine ih (s.descend (stops s) (w :: ways)).2 _ _ (fun e he => ?_) hn' hs' hc'
        obtain ⟨u, hu, hstops, link, hlink, rfl⟩ := mem_descend.2 he
        rw [node, hn] at hlink
        rw [hstack] at hstops
        exact hfollow _ u (hways u hu) hstops link hlink
      · simp

end Stack

/-- Above the bottom it does not matter where a subtree lies. -/
theorem Subtree.liesOn_of_pos {byte : Nat} (hbyte : 0 < byte) {t : Subtree σ} :
    t.LiesOn byte ↔ t.LiesOn 1 := by
  have hgap : markGap byte = markGap 1 := by
    rw [markGap, markGap, if_neg (Nat.ne_of_gt hbyte), if_neg Nat.one_ne_zero]
  exact ⟨fun h => ⟨h.stop, hgap ▸ h.padding⟩, fun h => ⟨h.stop, hgap.symm ▸ h.padding⟩⟩

/-- Subtrees one after another, the first of them on a node at a byte, the others anywhere but at
the bottom. -/
def Subtree.LieOn (byte : Nat) : List (Subtree σ) → Prop
  | [] => True
  | t :: rest => t.LiesOn byte ∧ ∀ u ∈ rest, u.LiesOn 1

/-- Subtrees that are taken off a node at a byte. Those taken off the bottom are not all such as
may stand anywhere. -/
structure Subtree.Taken (byte : Nat) (subtrees : List (Subtree σ)) : Prop where
  lie : Subtree.LieOn byte subtrees
  counts : byte = 0 → ∃ t ∈ subtrees, t.extra = false

namespace Stack

/-- A way down from version `v` to a depth. -/
structure Way.Descends (s : Stack σ) (v count : Nat) (w : Way σ) : Prop where
  node : w.node < s.nodes.size
  lie : Subtree.LieOn (s.byteAt w.node) w.subtrees
  depth : w.depth = w.subtrees.countP (!·.extra)
  start : count = 0 → w.depth = 0 → w.node = (s.head v).node

/-- A way that goes further down takes a subtree that lies on the node it comes to. -/
theorem Way.Descends.follow {s : Stack σ} {v count : Nat} {w : Way σ} (hs : s.Steady)
    (h : w.Descends s v count) (hw : (w.depth == count) = false) {link : Link σ}
    (hlink : link ∈ (s.node w.node).links) : (w.follow link).Descends s v count := by
  obtain ⟨hpos, hfits⟩ := hs.links w.node link hlink
  obtain ⟨t, ht, hlies⟩ := hfits.subtree
  have hrest : ∀ u ∈ w.subtrees, u.LiesOn 1 := by
    have hlie := h.lie
    cases hsubtrees : w.subtrees with
    | nil => exact fun u hu => absurd hu List.not_mem_nil
    | cons first rest =>
      rw [hsubtrees] at hlie
      intro u hu
      rcases List.mem_cons.mp hu with rfl | hu
      · exact (Subtree.liesOn_of_pos hpos).mp hlie.1
      · exact hlie.2 u hu
  have hstart : count = 0 → (w.follow link).depth ≠ 0 := by
    rintro rfl
    have : w.depth ≠ 0 := by simpa using hw
    simp only [Way.follow, ht]
    split_ifs <;> omega
  refine ⟨?_, ?_, ?_, fun hcount hdepth => absurd hdepth (hstart hcount)⟩
  · simpa only [Way.follow, ht] using hfits.node
  · simpa only [Way.follow, ht] using ⟨hlies, hrest⟩
  · simp only [Way.follow, ht, List.countP_cons, h.depth]
    cases t.extra <;> rfl

/-- What is taken from a version. A version at the bottom has nothing to take, so that `count` is
then not zero. -/
theorem popCount_taken {s : Stack σ} (hs : s.Steady) (v count : Nat)
    (hv : count = 0 → 0 < s.position v) :
    (s.popCount v count).2.nodes = s.nodes ∧ (s.popCount v count).2.Steady ∧
      Collected (fun n => Subtree.Taken (s.byteAt n)) (s.popCount v count).1
        (s.popCount v count).2 := by
  refine popLoop_collected _ (Way.Descends s v count) s.nodes v _ (fun _ h => h.node) ?_
    (fun _ w h hw link hlink => h.follow hs hw hlink) _ _ _ s ?_ rfl hs (.empty _ s)
  · intro _ w h hw
    have hdepth : w.depth = count := beq_iff_eq.mp hw
    refine ⟨h.lie, fun hbyte => ?_⟩
    cases count with
    | zero =>
      rw [h.start rfl hdepth] at hbyte
      exact absurd hbyte (Nat.ne_of_gt (hv rfl))
    | succ count =>
      have hpos : 0 < w.subtrees.countP (!·.extra) := by
        rw [← h.depth, hdepth]
        exact Nat.succ_pos count
      obtain ⟨t, ht, hextra⟩ := List.countP_pos_iff.mp hpos
      exact ⟨t, ht, by simpa using hextra⟩
  · intro w hw
    rw [List.mem_singleton.mp hw]
    exact ⟨hs.heads v, trivial, rfl, fun _ _ => rfl⟩

theorem Steady.popAll {s : Stack σ} (hs : s.Steady) (v : Nat) : (s.popAll v).2.Steady := by
  have hall := popLoop_collected (fun _ _ => True) (fun w => w.node < s.nodes.size) s.nodes v
    (fun s w => (s.node w.node).links.isEmpty) (fun _ h => h) (fun _ _ _ _ => trivial)
    (fun _ w _ _ link hlink => ?_) (s.nodes.size + 1) [⟨(s.head v).node, [], 0⟩] #[] s
    (fun w hw => ?_) rfl hs (.empty _ s)
  · exact hall.2.1
  · obtain ⟨-, hfits⟩ := hs.links w.node link hlink
    obtain ⟨t, ht, -⟩ := hfits.subtree
    simpa only [Way.follow, ht] using hfits.node
  · rw [List.mem_singleton.mp hw]
    exact hs.heads v

end Stack

end CodeAtlas.Syntax
