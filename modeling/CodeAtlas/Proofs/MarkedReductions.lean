import CodeAtlas.Proofs.MarkedSlices

/-!
# Reductions behind a byte order mark

A computation of the machine goes the same way with a mark (`Machine.Goes`) if it leaves a steady
stack and, begun on the machine with a mark, does the same there. A reduction goes the same way
(`goes_reduce`) : the subtrees that are taken from a version lie on the node that it is left at,
and so does the node that is put over them. The slices are gone through in the order of their
versions, so that a version that is dropped moves only those that are still to come (`Due`).
-/

namespace CodeAtlas.Syntax

open CodeAtlas.Grammar CodeAtlas.Text

variable {σ : Type}

/-! ## Nodes over what is taken -/

namespace Subtree

theorem LiesOn.withExtra {byte : Nat} {t : Subtree σ} (h : t.LiesOn byte) (extra : Bool) :
    (t.withExtra extra).LiesOn byte := by
  obtain ⟨hstop, hpadding⟩ := h
  cases t <;> exact ⟨hstop, hpadding⟩

theorem LiesOn.addDynamic {byte : Nat} {t : Subtree σ} (h : t.LiesOn byte) (d : Int) :
    (t.addDynamic d).LiesOn byte := by
  obtain ⟨hstop, hpadding⟩ := h
  cases t <;> exact ⟨hstop, hpadding⟩

theorem padding_foldl_summarizeChild (l : Language) (cs : List (Subtree σ)) :
    ∀ (s : Summary) (steps : List Step),
      (cs.foldl (summarizeChild l) (s, steps)).1.padding = s.padding := by
  induction cs with
  | nil => exact fun _ _ => rfl
  | cons c cs ih => exact fun _ _ => ih _ _

theorem stop_foldl_summarizeChild (l : Language) (cs : List (Subtree σ)) :
    ∀ (s : Summary) (steps : List Step),
      (cs.foldl (summarizeChild l) (s, steps)).1.stop = (cs.getLast?.map stop).getD s.stop := by
  induction cs with
  | nil => exact fun _ _ => rfl
  | cons c cs ih =>
    intro s steps
    rw [List.foldl_cons, List.getLast?_cons]
    refine (ih _ _).trans ?_
    cases cs.getLast? <;> rfl

/-- A node ends where its last child ends. -/
theorem stop_make (l : Language) (label : Label) (production : Option Nat) (place : Cursor)
    (cs : List (Subtree σ)) :
    (make l label production place cs).stop = (cs.getLast?.map stop).getD place := by
  have hcharged (s : Summary) : (charged label s).stop = s.stop := by
    unfold charged
    split_ifs <;> rfl
  rw [make_eq, stop, hcharged, stop_foldl_summarizeChild]
  rfl

/-- A node has as much before it as its first child. -/
theorem padding_make (l : Language) (label : Label) (production : Option Nat) (place : Cursor)
    (cs : List (Subtree σ)) :
    (make l label production place cs).padding = (cs.head?.map padding).getD 0 := by
  rw [make_eq, padding, padding_charged, padding_foldl_summarizeChild]
  rfl

/-- A node over subtrees that lie on a node of the stack lies there too. One without children is
not at the bottom. -/
theorem liesOn_make (l : Language) (label : Label) (production : Option Nat) {place : Cursor}
    {cs : List (Subtree σ)} (h : LieOn place.position.byte cs)
    (hempty : cs = [] → 0 < place.position.byte) :
    (make l label production place cs).LiesOn place.position.byte := by
  have hmoved : (make l label production place cs).pastMark.padding =
      ((cs.map pastMark).head?.map padding).getD 0 := by
    have hmake : make l label production place.pastMark (cs.map pastMark) =
        (make l label production place cs).pastMark := make_pastMark l label production fun _ => rfl
    rw [← hmake, padding_make]
  refine ⟨?_, ?_⟩
  · rw [stop_make]
    cases hlast : cs.getLast? with
    | none => exact hempty (List.getLast?_eq_none_iff.mp hlast)
    | some c =>
      have hc := List.mem_of_getLast? hlast
      cases cs with
      | nil => exact absurd hc List.not_mem_nil
      | cons d cs =>
        rcases List.mem_cons.mp hc with rfl | hc
        · exact h.1.stop
        · exact (h.2 c hc).stop
  · rw [hmoved, padding_make]
    cases cs with
    | nil =>
      rw [markGap, if_neg (Nat.ne_of_gt (hempty rfl))]
      rfl
    | cons c cs => exact h.1.padding

theorem splitExtras_append (ts : List (Subtree σ)) :
    (splitExtras ts).1 ++ (splitExtras ts).2 = ts := by
  rw [splitExtras, ← List.reverse_append, List.takeWhile_append_dropWhile, List.reverse_reverse]

theorem extra_of_splitExtras {ts : List (Subtree σ)} (h : (splitExtras ts).1 = []) :
    ∀ t ∈ ts, t.extra = true := by
  intro t ht
  rw [splitExtras, List.reverse_eq_nil_iff, List.dropWhile_eq_nil_iff] at h
  exact h t (List.mem_reverse.mpr ht)

/-- What is taken off a node is children that lie on it, and extras behind them. -/
theorem Taken.splitExtras {byte : Nat} {ts : List (Subtree σ)} (h : Taken byte ts) :
    LieOn byte (splitExtras ts).1 ∧ ((Subtree.splitExtras ts).1 = [] → 0 < byte) ∧
      ∀ t ∈ (Subtree.splitExtras ts).2, t.LiesOn 1 := by
  have hpos : (Subtree.splitExtras ts).1 = [] → 0 < byte := by
    intro hempty
    by_contra hbyte
    obtain ⟨t, ht, hextra⟩ := h.counts (by omega)
    rw [extra_of_splitExtras hempty t ht] at hextra
    exact Bool.noConfusion hextra
  have hlie := h.lie
  rw [← splitExtras_append ts] at hlie
  cases hchildren : (Subtree.splitExtras ts).1 with
  | nil =>
    rw [hchildren, List.nil_append] at hlie
    refine ⟨trivial, fun _ => hpos hchildren, fun t ht => ?_⟩
    cases hothers : (Subtree.splitExtras ts).2 with
    | nil => exact absurd (hothers ▸ ht) List.not_mem_nil
    | cons first rest =>
      rw [hothers] at hlie ht
      rcases List.mem_cons.mp ht with rfl | ht
      · exact (liesOn_of_pos (hpos hchildren)).mp hlie.1
      · exact hlie.2 t ht
  | cons c cs =>
    rw [hchildren, List.cons_append] at hlie
    exact ⟨⟨hlie.1, fun t ht => hlie.2 t (List.mem_append_left _ ht)⟩,
      fun hempty => absurd hempty (List.cons_ne_nil c cs),
      fun t ht => hlie.2 t (List.mem_append_right _ ht)⟩

end Subtree

namespace Machine

/-- The node over subtrees that are taken from a version, and the extras that followed them. -/
def candidate (l : Language) (symbol production : Nat) (place : Cursor)
    (subtrees : List (Subtree σ)) : Subtree σ × List (Subtree σ) :=
  (Subtree.make l (.symbol symbol) (some production) place (Subtree.splitExtras subtrees).1,
    (Subtree.splitExtras subtrees).2)

/-- A node that can be pushed on a node at a byte, with extras that can be pushed on it. -/
structure Fitting (byte : Nat) (best : Subtree σ × List (Subtree σ)) : Prop where
  parent : best.1.LiesOn byte
  extras : ∀ t ∈ best.2, t.LiesOn 1

section

variable (l : Language) (symbol production : Nat) (place : Cursor)

/-- What is taken off a node can be put under a node that is pushed on it. -/
theorem fitting_candidate {subtrees : List (Subtree σ)}
    (h : Subtree.Taken place.position.byte subtrees) :
    Fitting place.position.byte (candidate l symbol production place subtrees) :=
  ⟨Subtree.liesOn_make l _ _ h.splitExtras.1 h.splitExtras.2.1, h.splitExtras.2.2⟩

theorem candidate_withMark {subtrees : List (Subtree σ)}
    (h : Subtree.Taken place.position.byte subtrees) :
    candidate l symbol production place.withMark (subtrees.map Subtree.pastMark) =
      Prod.map Subtree.pastMark (List.map Subtree.pastMark)
        (candidate l symbol production place subtrees) := by
  simp only [candidate, Subtree.splitExtras_pastMark, Prod.map]
  rw [Subtree.make_pastMark]
  exact fun hempty => Cursor.withMark_of_pos (h.splitExtras.2.1 hempty)

theorem bestChildren_cons (slice : Slice σ) (rest : List (Slice σ))
    (best : Subtree σ × List (Subtree σ)) :
    bestChildren l symbol production place (slice :: rest) best =
      bestChildren l symbol production place rest
        (if best.1.prefersSecond (candidate l symbol production place slice.subtrees).1
          then candidate l symbol production place slice.subtrees else best) :=
  rfl

theorem fitting_bestChildren : ∀ (slices : List (Slice σ)) (best : Subtree σ × List (Subtree σ)),
    (∀ slice ∈ slices, Subtree.Taken place.position.byte slice.subtrees) →
    Fitting place.position.byte best →
      Fitting place.position.byte (bestChildren l symbol production place slices best)
  | [], _, _, hbest => hbest
  | slice :: rest, best, hslices, hbest => by
    rw [bestChildren_cons]
    refine fitting_bestChildren rest _ (fun e he => hslices e (List.mem_cons_of_mem _ he)) ?_
    split_ifs
    · exact fitting_candidate l symbol production place (hslices slice List.mem_cons_self)
    · exact hbest

/-- The best of several readings is the same one. -/
theorem bestChildren_withMark : ∀ (slices : List (Slice σ)) (best : Subtree σ × List (Subtree σ)),
    (∀ slice ∈ slices, Subtree.Taken place.position.byte slice.subtrees) →
      bestChildren l symbol production place.withMark (slices.map Slice.pastMark)
          (Prod.map Subtree.pastMark (List.map Subtree.pastMark) best) =
        Prod.map Subtree.pastMark (List.map Subtree.pastMark)
          (bestChildren l symbol production place slices best)
  | [], _, _ => rfl
  | slice :: rest, best, hslices => by
    have hrival := candidate_withMark l symbol production place
      (hslices slice List.mem_cons_self)
    have hslice : slice.pastMark.subtrees = slice.subtrees.map Subtree.pastMark := rfl
    rw [List.map_cons, bestChildren_cons, bestChildren_cons, hslice, hrival,
      ← bestChildren_withMark rest _ fun e he => hslices e (List.mem_cons_of_mem _ he)]
    simp only [Prod.map_fst, Subtree.prefersSecond_pastMark]
    split_ifs <;> rfl

end

end Machine

/-! ## Pushing several subtrees -/

namespace Stack

theorem head_remove_pred (s : Stack σ) {w u : Nat} (hu : w < u) :
    (s.remove w).head (u - 1) = s.head u := by
  rw [head_remove, if_neg (by omega), Nat.sub_add_cancel (by omega)]

/-- Pushing on one version leaves the others where they are. -/
theorem head_push (l : Language) (s : Stack σ) (w : Nat) (t : Subtree σ) (state u : Nat) :
    ((s.push l w (some t) state).head u).node =
      if w = u ∧ u < s.heads.size then s.nodes.size else (s.head u).node := by
  rw [push_eq, head, getD_modify]
  split_ifs <;> rfl

theorem size_heads_push (l : Language) (s : Stack σ) (w : Nat) (t : Subtree σ) (state : Nat) :
    (s.push l w (some t) state).heads.size = s.heads.size := by
  rw [push_eq]
  exact Array.size_modify

theorem position_push (l : Language) (s : Stack σ) {w : Nat} (hw : w < s.heads.size)
    (t : Subtree σ) (state : Nat) :
    (s.push l w (some t) state).position w = t.stop.position.byte := by
  rw [position, top, head_push, if_pos ⟨rfl, hw⟩, node_push, if_pos rfl]
  rfl

/-- What has become of a stack by pushing on one version. -/
structure Grows (s : Stack σ) (w : Nat) (s' : Stack σ) : Prop where
  keeps : s.Keeps s'
  size : s'.heads.size = s.heads.size
  head : ∀ u, u ≠ w → (s'.head u).node = (s.head u).node

theorem Grows.trans {s s' s'' : Stack σ} {w : Nat} (h : s.Grows w s') (h' : s'.Grows w s'') :
    s.Grows w s'' :=
  ⟨h.keeps.trans h'.keeps, h'.size.trans h.size, fun u hu => (h'.head u hu).trans (h.head u hu)⟩

theorem grows_push (l : Language) (s : Stack σ) (w : Nat) (t : Subtree σ) (state : Nat) :
    s.Grows w (s.push l w (some t) state) where
  keeps := keeps_push l s w t state
  size := size_heads_push l s w t state
  head u hu := by rw [head_push, if_neg fun h => hu h.1.symm]

/-- Pushing extras on a version that is not at the bottom. -/
theorem foldl_push (l : Language) {w : Nat} (state : Nat) :
    ∀ (ts : List (Subtree σ)) (s : Stack σ), (∀ t ∈ ts, t.LiesOn 1) → s.Steady →
      w < s.heads.size → 0 < s.position w →
      (ts.foldl (fun s t => s.push l w (some t) state) s).Steady ∧
        s.Grows w (ts.foldl (fun s t => s.push l w (some t) state) s) ∧
        (ts.map Subtree.pastMark).foldl (fun s t => s.push l w (some t) state) s.withMark =
          (ts.foldl (fun s t => s.push l w (some t) state) s).withMark
  | [], s, _, hs, _, _ => ⟨hs, ⟨.refl s, rfl, fun _ _ => rfl⟩, rfl⟩
  | t :: ts, s, hts, hs, hw, hpos => by
    have ht := hts t List.mem_cons_self
    have hsteady := hs.push l w ((Subtree.liesOn_of_pos hpos).mpr ht) state
    have hgrows := grows_push l s w t state
    obtain ⟨hsteady', hgrows', hmarked⟩ := foldl_push l state ts (s.push l w (some t) state)
      (fun u hu => hts u (List.mem_cons_of_mem _ hu)) hsteady
      (by rwa [hgrows.size])
      (by
        rw [position_push l s hw]
        exact ht.stop)
    refine ⟨hsteady', hgrows.trans hgrows', ?_⟩
    rw [List.map_cons, List.foldl_cons, List.foldl_cons, push_withMark l s w ht.stop]
    exact hmarked

/-- A version is pushed on and then lost. -/
theorem Grows.drops {s s' s'' : Stack σ} {w : Nat} (h : s.Grows w s') (h' : s'.Drops w s'') :
    s.Drops w s'' := by
  refine ⟨h.keeps.trans h'.keeps, ?_, fun u => ?_⟩
  · rw [h'.size, size_heads_remove, size_heads_remove, h.size]
  · rw [h'.head, head_remove, head_remove]
    split_ifs with hu
    · exact h.head u (Nat.ne_of_lt hu)
    · exact h.head (u + 1) (by omega)

end Stack

/-! ## Computations of the machine -/

namespace Machine

/-- The machine that reads the text with a mark. -/
def withMark (m : Machine σ) : Machine σ :=
  ⟨m.stack.withMark, m.automaton, m.finished.map Subtree.pastMark, m.accepted⟩

theorem versions_withMark (m : Machine σ) : m.withMark.versions = m.versions :=
  m.stack.size_heads_withMark

theorem run_bind {α β : Type} (x : StateM (Machine σ) α) (f : α → StateM (Machine σ) β)
    (m : Machine σ) : (x >>= f).run m = (f (x.run m).1).run (x.run m).2 := rfl

/-- From a machine, a computation leaves a steady stack, and another one does the same from the
machine with a mark. -/
structure Goes {α : Type} (g : α → α) (x x' : StateM (Machine σ) α) (m : Machine σ) : Prop where
  steady : (x.run m).2.stack.Steady
  marked : x'.run m.withMark = (g (x.run m).1, (x.run m).2.withMark)

namespace Goes

variable {α β : Type} {g : α → α} {h : β → β} {m : Machine σ}

theorem pure (hm : m.stack.Steady) (a : α) : Goes g (pure a) (pure (g a)) m := ⟨hm, rfl⟩

/-- Computations go alike one after the other. -/
theorem bind {x x' : StateM (Machine σ) α} {f f' : α → StateM (Machine σ) β}
    (hx : Goes g x x' m) (hf : Goes h (f (x.run m).1) (f' (g (x.run m).1)) (x.run m).2) :
    Goes h (x >>= f) (x' >>= f') m := by
  refine ⟨hf.steady, ?_⟩
  rw [run_bind, hx.marked]
  exact hf.marked

theorem get_bind {f f' : Machine σ → StateM (Machine σ) β} (hf : Goes h (f m) (f' m.withMark) m) :
    Goes h (get >>= f) (get >>= f') m :=
  ⟨hf.steady, hf.marked⟩

theorem modifyStack {f f' : Stack σ → Stack σ} (hf : (f m.stack).Steady)
    (hf' : f' m.stack.withMark = (f m.stack).withMark) :
    Goes id (modifyStack f) (modifyStack f') m :=
  ⟨hf, congrArg (fun s => ((), Machine.mk s m.automaton (m.finished.map Subtree.pastMark)
    m.accepted)) hf'⟩

theorem modifyStack_bind {f f' : Stack σ → Stack σ} {k k' : Unit → StateM (Machine σ) β}
    (hf : f' m.stack.withMark = (f m.stack).withMark)
    (hk : Goes h (k ()) (k' ()) { m with stack := f m.stack }) :
    Goes h (Machine.modifyStack f >>= k) (Machine.modifyStack f' >>= k') m := by
  refine ⟨hk.steady, ?_⟩
  have hrun : (Machine.modifyStack f' >>= k').run m.withMark =
      (k' ()).run { m.withMark with stack := f' m.stack.withMark } := rfl
  rw [hrun, hf]
  exact hk.marked

/-- The automaton knows nothing of places. -/
theorem goto_bind (l : Language) (n symbol : Nat) {k k' : Nat → StateM (Machine σ) β}
    (hk : ∀ next automaton, Goes h (k next) (k' next) { m with automaton }) :
    Goes h (goto l n symbol >>= k) (goto l n symbol >>= k') m :=
  have hnext := hk ((m.automaton.next? l n symbol).1.getD 0) (m.automaton.next? l n symbol).2
  ⟨hnext.steady, hnext.marked⟩

end Goes

/-! ## Pushing nodes -/

/-- Slices that are still to be pushed, `removed` versions being lost. -/
structure Due (s : Stack σ) (removed : Nat) (slices : List (Slice σ)) : Prop where
  sorted : (slices.map Slice.version).Pairwise (· ≤ ·)
  le : ∀ slice ∈ slices, removed ≤ slice.version
  version : ∀ slice ∈ slices, slice.version - removed < s.heads.size
  taken : ∀ slice ∈ slices,
    Subtree.Taken (s.position (slice.version - removed)) slice.subtrees

/-- In the order of their versions, the slices after those of the first version are of later
ones. -/
theorem lt_of_mem_dropWhile {first : Nat} : ∀ {slices : List (Slice σ)},
    (slices.map Slice.version).Pairwise (· ≤ ·) → (∀ e ∈ slices, first ≤ e.version) →
      ∀ e ∈ slices.dropWhile fun r => r.version == first, first < e.version
  | [], _, _, _, he => absurd he List.not_mem_nil
  | r :: slices, hsorted, hfirst, e, he => by
    obtain ⟨hr, hsorted⟩ := List.pairwise_cons.mp hsorted
    rw [List.dropWhile_cons] at he
    split_ifs at he with hversion
    · exact lt_of_mem_dropWhile hsorted (fun e he => hfirst e (List.mem_cons_of_mem _ he)) e he
    · have hne : r.version ≠ first := by simpa using hversion
      have hle := hfirst r List.mem_cons_self
      rcases List.mem_cons.mp he with rfl | he
      · omega
      · have := hr _ (List.mem_map_of_mem he)
        omega

/-- What has been taken from a stack is due. -/
theorem due_of_collected {s s' : Stack σ} {slices : Array (Slice σ)} (hnodes : s'.nodes = s.nodes)
    (h : Stack.Collected (fun n => Subtree.Taken (s.byteAt n)) slices s') :
    Due s' 0 slices.toList := by
  refine ⟨h.sorted, fun _ _ => Nat.zero_le _,
    fun e he => h.version e (Array.mem_toList_iff.mp he), fun e he => ?_⟩
  have hplace : s'.position (e.version - 0) = s.byteAt (s'.head e.version).node := by
    rw [Nat.sub_zero, Stack.position, Stack.top, Stack.node, hnodes]
    rfl
  rw [hplace]
  exact h.good e (Array.mem_toList_iff.mp he)

/-- The slices of the other versions are still due after one version is pushed on and possibly
lost : `lost` is one or zero. -/
theorem Due.others {s s' : Stack σ} {removed : Nat} (lost : Nat) {slice : Slice σ} {rest : List (Slice σ)}
    (hs : s.Steady) (h : Due s removed (slice :: rest)) (hkeeps : s.Keeps s') (hlost : lost ≤ 1)
    (hsize : s.heads.size - lost ≤ s'.heads.size)
    (hhead : ∀ u, slice.version - removed < u → (s'.head (u - lost)).node = (s.head u).node) :
    Due s' (removed + lost) (rest.dropWhile fun r => r.version == slice.version) := by
  set others := rest.dropWhile fun r => r.version == slice.version with hothers
  have hsub : others.Sublist rest := List.dropWhile_sublist _
  have hsorted := List.pairwise_cons.mp h.sorted
  have hlater : ∀ e ∈ others, slice.version < e.version :=
    lt_of_mem_dropWhile hsorted.2 fun e he => hsorted.1 _ (List.mem_map_of_mem he)
  refine ⟨hsorted.2.sublist (hsub.map _), fun e he => ?_, fun e he => ?_, fun e he => ?_⟩
  · have := h.le slice List.mem_cons_self
    have := hlater e he
    omega
  · have := h.version e (List.mem_cons_of_mem _ (hsub.subset he))
    have := h.le slice List.mem_cons_self
    have := hlater e he
    omega
  · have htaken := h.taken e (List.mem_cons_of_mem _ (hsub.subset he))
    have hplace : e.version - (removed + lost) = e.version - removed - lost := by omega
    have hafter : slice.version - removed < e.version - removed := by
      have := h.le slice List.mem_cons_self
      have := hlater e he
      omega
    have hposition : s'.position (e.version - removed - lost) = s.position (e.version - removed) := by
      have hbyte := hkeeps.byte _ (hs.heads (e.version - removed))
      rw [← hhead _ hafter] at hbyte
      exact hbyte.trans (by rw [hhead _ hafter]; rfl)
    rw [hplace, hposition]
    exact htaken

theorem Due.grows {s s' : Stack σ} {removed : Nat} {slice : Slice σ} {rest : List (Slice σ)}
    (hs : s.Steady) (h : Due s removed (slice :: rest))
    (hgrows : s.Grows (slice.version - removed) s') :
    Due s' removed (rest.dropWhile fun r => r.version == slice.version) :=
  h.others 0 hs hgrows.keeps (Nat.zero_le 1) (Nat.le_of_eq hgrows.size.symm)
    fun u hu => hgrows.head u (Nat.ne_of_gt hu)

theorem Due.drops {s s' : Stack σ} {removed : Nat} {slice : Slice σ} {rest : List (Slice σ)}
    (hs : s.Steady) (h : Due s removed (slice :: rest))
    (hdrops : s.Drops (slice.version - removed) s') :
    Due s' (removed + 1) (rest.dropWhile fun r => r.version == slice.version) := by
  refine h.others 1 hs hdrops.keeps (Nat.le_refl 1) ?_ fun u hu => ?_
  · rw [hdrops.size, Stack.size_heads_remove, if_pos (h.version slice List.mem_cons_self)]
  · rw [hdrops.head, Stack.head_remove_pred _ hu]

/-- Push a node and the extras that follow it. -/
def pushBest (l : Language) (w : Nat) (dynamic : Int) (next : Nat)
    (best : Subtree σ × List (Subtree σ)) (s : Stack σ) : Stack σ :=
  best.2.foldl (fun s t => s.push l w (some t) next)
    (s.push l w (some (best.1.addDynamic dynamic)) next)

theorem pushBest_withMark (l : Language) {w : Nat} (dynamic : Int) (next : Nat)
    {best : Subtree σ × List (Subtree σ)} {s : Stack σ} (hs : s.Steady) (hw : w < s.heads.size)
    (hbest : Fitting (s.position w) best) :
    (pushBest l w dynamic next best s).Steady ∧ s.Grows w (pushBest l w dynamic next best s) ∧
      pushBest l w dynamic next (Prod.map Subtree.pastMark (List.map Subtree.pastMark) best)
        s.withMark = (pushBest l w dynamic next best s).withMark := by
  have hparent := hbest.parent.addDynamic dynamic
  have hgrows := Stack.grows_push l s w (best.1.addDynamic dynamic) next
  obtain ⟨hsteady, hgrows', hmarked⟩ := Stack.foldl_push l next best.2 _ hbest.extras
    (hs.push l w hparent next) (by rwa [hgrows.size])
    (by
      rw [Stack.position_push l s hw]
      exact hparent.stop)
  refine ⟨hsteady, hgrows.trans hgrows', ?_⟩
  rw [pushBest, Prod.map_fst, Prod.map_snd, Subtree.addDynamic_pastMark,
    Stack.push_withMark l s w hparent.stop]
  exact hmarked

/-- Either no computation merges anything, or both do and version `w` is lost. -/
def Merges (w : Nat) (x : StateM (Machine σ) Bool) (m : Machine σ) : Prop :=
  (x.run m = (false, m) ∧ x.run m.withMark = (false, m.withMark)) ∨
    ∃ done, x.run m = (true, { m with stack := done }) ∧
      x.run m.withMark = (true, withMark { m with stack := done }) ∧
      done.Steady ∧ m.stack.Drops w done

/-- What comes after a merge goes alike whether or not there is one. -/
theorem Goes.merges_bind {β : Type} {h : β → β} {w : Nat} {x : StateM (Machine σ) Bool}
    {f f' : Bool → StateM (Machine σ) β} {m : Machine σ} (hx : Merges w x m)
    (hfalse : Goes h (f false) (f' false) m)
    (htrue : ∀ done, done.Steady → m.stack.Drops w done →
      Goes h (f true) (f' true) { m with stack := done }) :
    Goes h (x >>= f) (x >>= f') m := by
  rcases hx with ⟨hrun, hmarked⟩ | ⟨done, hrun, hmarked, hsteady, hdrops⟩
  · refine ⟨?_, ?_⟩
    · rw [run_bind, hrun]
      exact hfalse.steady
    · rw [run_bind, run_bind, hrun, hmarked]
      exact hfalse.marked
  · have hgoes := htrue done hsteady hdrops
    refine ⟨?_, ?_⟩
    · rw [run_bind, hrun]
      exact hgoes.steady
    · rw [run_bind, run_bind, hrun, hmarked]
      exact hgoes.marked

section

variable [BEq σ] (l : Language)

/-- Merge version `w` into version `j` if that can be done. -/
def tryMerge (j w : Nat) : StateM (Machine σ) Bool :=
  modifyGet fun m =>
    let ⟨stack, automaton, finished, accepted⟩ := m
    let (merged, stack) := stack.merge l j w
    (merged, ⟨stack, automaton, finished, accepted⟩)

theorem merges_tryMerge (j w : Nat) {m : Machine σ} (hm : m.stack.Steady) :
    Merges w (tryMerge l j w) m := by
  have hrun (m : Machine σ) : (tryMerge l j w).run m =
      ((m.stack.merge l j w).1, { m with stack := (m.stack.merge l j w).2 }) := rfl
  have hstack : m.withMark.stack = m.stack.withMark := rfl
  rw [Merges, hrun, hrun, hstack]
  rcases m.stack.merge_cases l hm j w with ⟨hmerge, hmarked⟩ | ⟨done, hmerge, hmarked, hdone⟩
  · rw [hmerge, hmarked]
    exact .inl ⟨rfl, rfl⟩
  · rw [hmerge, hmarked]
    exact .inr ⟨done, rfl, rfl, hdone⟩

theorem mergeBelow_succ (v w fuel j : Nat) : mergeBelow l v w (fuel + 1) j =
    if j ≥ w then (pure false : StateM (Machine σ) Bool)
    else if j == v then mergeBelow l v w fuel (j + 1)
    else tryMerge l j w >>= fun merged =>
      if merged then pure true else mergeBelow l v w fuel (j + 1) :=
  rfl

/-- A version is merged into the first one before it that it can be merged into. -/
theorem merges_mergeBelow (v w : Nat) {m : Machine σ} (hm : m.stack.Steady) :
    ∀ fuel j : Nat, Merges w (mergeBelow l v w fuel j) m
  | 0, _ => .inl ⟨rfl, rfl⟩
  | fuel + 1, j => by
    rw [mergeBelow_succ]
    split_ifs
    · exact .inl ⟨rfl, rfl⟩
    · exact merges_mergeBelow v w hm fuel (j + 1)
    · rw [Merges, run_bind, run_bind]
      rcases merges_tryMerge l j w hm with ⟨hmerge, hmarked⟩ | ⟨done, hmerge, hmarked, hdone⟩
      · rw [hmerge, hmarked]
        exact merges_mergeBelow v w hm fuel (j + 1)
      · rw [hmerge, hmarked]
        exact .inr ⟨done, rfl, rfl, hdone⟩

theorem pushNodes_cons (v symbol : Nat) (dynamic : Int) (production fuel : Nat) (slice : Slice σ)
    (rest : List (Slice σ)) (removed : Nat) :
    pushNodes l v symbol dynamic production (fuel + 1) (slice :: rest) removed =
      let w := slice.version - removed
      let others := rest.dropWhile fun r => r.version == slice.version
      if w > maxVersions + versionOverflow then
        modifyStack (fun s => s.remove w) >>= fun _ =>
          pushNodes l v symbol dynamic production fuel others (removed + 1)
      else
        get >>= fun m =>
          let place := (m.stack.top w).cursor
          let best := bestChildren l symbol production place
            (rest.takeWhile fun r => r.version == slice.version)
            (candidate l symbol production place slice.subtrees)
          get >>= fun m => goto l (m.stack.state w) symbol >>= fun next =>
            modifyStack (pushBest l w dynamic next best) >>= fun _ =>
              mergeBelow l v w w 0 >>= fun merged =>
                pushNodes l v symbol dynamic production fuel others
                  (if merged then removed + 1 else removed) :=
  rfl

/-- The nodes are pushed version by version, the versions behind one that is lost moving up. -/
theorem goes_pushNodes (v symbol : Nat) (dynamic : Int) (production : Nat) :
    ∀ (fuel : Nat) (slices : List (Slice σ)) (removed : Nat) (m : Machine σ), m.stack.Steady →
      Due m.stack removed slices →
      Goes id (pushNodes l v symbol dynamic production fuel slices removed)
        (pushNodes l v symbol dynamic production fuel (slices.map Slice.pastMark) removed) m
  | 0, _, _, _, hm, _ => .pure hm ()
  | _ + 1, [], _, _, hm, _ => .pure hm ()
  | fuel + 1, slice :: rest, removed, m, hm, hdue => by
    have hversion := hdue.version slice List.mem_cons_self
    have hsame : (fun r : Slice σ => r.version == slice.pastMark.version) ∘ Slice.pastMark =
        fun r => r.version == slice.version := rfl
    rw [List.map_cons, pushNodes_cons, pushNodes_cons]
    dsimp only
    rw [List.dropWhile_map, List.takeWhile_map, hsame]
    have hw : slice.pastMark.version - removed = slice.version - removed := rfl
    rw [hw]
    set w := slice.version - removed with hwdef
    split_ifs with hmany
    · -- a version too many is dropped
      exact .modifyStack_bind (m.stack.remove_withMark w)
        (goes_pushNodes v symbol dynamic production fuel _ _ _ (hm.remove w)
          (hdue.drops hm ⟨.of_nodes rfl, rfl, fun _ => rfl⟩))
    · have htaken : ∀ e ∈ slice :: rest.takeWhile fun r => r.version == slice.version,
          Subtree.Taken (m.stack.position w) e.subtrees := by
        intro e he
        rcases List.mem_cons.mp he with rfl | he
        · exact hdue.taken e List.mem_cons_self
        · have hmem := List.mem_cons_of_mem slice ((List.takeWhile_sublist _).subset he)
          have hversion : e.version = slice.version := by
            simpa using List.mem_takeWhile_imp he
          have htaken := hdue.taken e hmem
          rwa [hversion] at htaken
      have hcandidate := htaken slice List.mem_cons_self
      have hrest := fun e he => htaken e (List.mem_cons_of_mem slice he)
      have hplace : (m.withMark.stack.top w).cursor = (m.stack.top w).cursor.withMark := by
        rw [withMark, Stack.top_withMark]
        rfl
      have hstate : m.withMark.stack.state w = m.stack.state w := m.stack.state_withMark w
      have hsubtrees : slice.pastMark.subtrees = slice.subtrees.map Subtree.pastMark := rfl
      refine .get_bind (.get_bind ?_)
      rw [hplace, hstate, hsubtrees, candidate_withMark l symbol production _ hcandidate,
        bestChildren_withMark l symbol production _ _ _ hrest]
      refine .goto_bind l _ symbol fun next automaton => ?_
      obtain ⟨hsteady, hgrows, hmarked⟩ := pushBest_withMark l dynamic next hm hversion
        (fitting_bestChildren l symbol production _ _ _ hrest
          (fitting_candidate l symbol production _ hcandidate))
      exact .modifyStack_bind hmarked (.merges_bind (merges_mergeBelow l v w hsteady w 0)
        (goes_pushNodes v symbol dynamic production fuel _ removed _ hsteady (hdue.grows hm hgrows))
        fun done hdone hdrops => goes_pushNodes v symbol dynamic production fuel _ (removed + 1) _
          hdone (hdue.drops hm (hgrows.drops hdrops)))

/-! ## Reductions -/

/-- A reduction takes subtrees off a version and pushes nodes over them. -/
theorem reduce_eq (v symbol count : Nat) (dynamic : Int) (production : Nat) :
    reduce l v symbol count dynamic production =
      get >>= fun m => modifyStack (fun _ => (m.stack.popCount v count).2) >>= fun _ =>
        pushNodes l v symbol dynamic production ((m.stack.popCount v count).1.size + 1)
          (m.stack.popCount v count).1.toList 0 >>= fun _ =>
        match (m.stack.popCount v count).1[0]? with
        | none => pure none
        | some slice => get >>= fun (m : Machine σ) =>
          pure (if m.versions > slice.version then some slice.version else none) :=
  rfl

/-- A reduction of a version that is not at the bottom. -/
theorem goes_reduce (v symbol count : Nat) (dynamic : Int) (production : Nat) {m : Machine σ}
    (hm : m.stack.Steady) (hv : 0 < m.stack.position v) :
    Goes id (reduce l v symbol count dynamic production)
      (reduce l v symbol count dynamic production) m := by
  obtain ⟨hnodes, hsteady, hcollected⟩ := Stack.popCount_taken hm v count fun _ => hv
  have hpop : m.withMark.stack.popCount v count =
      Prod.map (Array.map Slice.pastMark) Stack.withMark (m.stack.popCount v count) :=
    m.stack.popCount_withMark v count
  rw [reduce_eq]
  refine .get_bind ?_
  rw [hpop]
  generalize m.stack.popCount v count = popped at hnodes hsteady hcollected
  obtain ⟨slices, s⟩ := popped
  simp only [Prod.map_fst, Prod.map_snd, Array.size_map, Array.getElem?_map, Array.toList_map]
  have hgoes := goes_pushNodes l v symbol dynamic production (slices.size + 1) slices.toList 0
    { m with stack := s } hsteady (due_of_collected hnodes hcollected)
  refine .modifyStack_bind rfl (.bind hgoes ?_)
  cases slices[0]? with
  | none => exact .pure hgoes.steady none
  | some slice =>
    refine .get_bind ?_
    rw [versions_withMark]
    exact .pure hgoes.steady _

end

end Machine

end CodeAtlas.Syntax
