import CodeAtlas.Proofs.QueryBounds
import Mathlib.Data.Fintype.List

/-!
# The search with a queue

Paths can be searched for with a queue of partial paths (`PathQueue`) : the first one is taken
out, and what it can be extended to is put at the end. Nothing in a round says that the rounds
come to an end, for the queue may grow while it is worked off, and a depth can be so large that
it bounds nothing.

All that is ever put into the queue are the followers of what was taken out, in order. The
levels of the search, one after the other, have the same property (`levels_eq`), so the queue
is always at some place of that list (`PathQueue.Follows`). Its members are simple, and no two
are the same. So the search ends after at most as many rounds as there are simple paths from the
start, of which there are finitely many (`finite_isSimpleFrom`), and has found what `paths` lists
(`pathQueue_halts`).
-/

namespace CodeAtlas.Graph.CallGraph

/-- The names of calls, one after the other, from a node on, of which none is met twice. -/
structure IsSimpleFrom (g : CallGraph) (start : String) (p : List String) : Prop where
  contains_first : g.contains start
  joined : p.IsChain fun a b => b ∈ g.callees a
  first : p.head? = some start
  nodup : p.Nodup

end CodeAtlas.Graph.CallGraph

namespace CodeAtlas.Query

open CodeAtlas.Graph

variable {g : CallGraph} {start target : String} {maxDepth limit : Nat}

/-! ## Simple paths from a node -/

theorem isSimpleFrom_reverse_iff {p : List String} :
    g.IsSimpleFrom start p.reverse ↔ g.contains start ∧ Walk g start p ∧ p.Nodup := by
  rw [walk_iff_isChain]
  constructor
  · intro h
    exact ⟨h.contains_first, ⟨List.isChain_reverse.mp h.joined,
      List.head?_reverse.symm.trans h.first⟩, List.nodup_reverse.mp h.nodup⟩
  · rintro ⟨hstart, ⟨hchain, hfirst⟩, hnodup⟩
    exact ⟨hstart, List.isChain_reverse.mpr hchain, List.head?_reverse.trans hfirst,
      List.nodup_reverse.mpr hnodup⟩

/-- In a consistent graph they are the simple paths, wherever they lead and however long. -/
theorem isSimpleFrom_iff_isSimplePath (hg : g.Consistent) {p : List String} :
    g.IsSimpleFrom start p ↔ ∃ v depth, g.IsSimplePath start v depth p := by
  -- a walk has its last name first
  obtain ⟨q, rfl⟩ : ∃ q, p = q.reverse := ⟨p.reverse, p.reverse_reverse.symm⟩
  rw [isSimpleFrom_reverse_iff]
  constructor
  · rintro ⟨hstart, hwalk, hnodup⟩
    obtain ⟨v, q, rfl⟩ : ∃ v q', q = v :: q' := by cases hwalk <;> exact ⟨_, _, rfl⟩
    exact ⟨v, _, (isPath_reverse_iff hg hstart).mpr hwalk, List.nodup_reverse.mpr hnodup,
      Nat.le_succ _⟩
  · rintro ⟨v, depth, hpath, hnodup, -⟩
    obtain ⟨q', hq⟩ := hpath.exists_reverse_eq_cons
    obtain rfl := List.reverse_injective hq
    exact ⟨hpath.contains_first, (isPath_reverse_iff hg hpath.contains_first).mp hpath,
      List.nodup_reverse.mp hnodup⟩

/-- The names of a chain of calls are its start and names that some node calls. -/
theorem Walk.eq_or_mem_calls {p : List String} (h : Walk g start p) {v : String} (hv : v ∈ p) :
    v = start ∨ v ∈ g.nodeList.flatMap (·.calls) := by
  induction h with
  | single => exact .inl (List.mem_singleton.mp hv)
  | @step a b _ _ hb ih =>
    rcases List.mem_cons.mp hv with rfl | hv
    · rw [CallGraph.callees] at hb
      cases hnode : g.node? a with
      | none => simp [hnode] at hb
      | some n =>
        rw [hnode] at hb
        refine .inr (List.mem_flatMap.mpr ⟨n, List.mem_map.mpr ⟨(a, n), ?_, rfl⟩, hb⟩)
        exact Std.ExtTreeMap.mem_toList_iff_getElem?_eq_some.mpr hnode
    · exact ih hv

theorem finite_isSimpleFrom (g : CallGraph) (start : String) :
    {p | g.IsSimpleFrom start p}.Finite := by
  let names : Finset String := (start :: g.nodeList.flatMap (·.calls)).toFinset
  have hlists : {p : List names | p.Nodup}.Finite :=
    Set.finite_coe_iff.mp (inferInstanceAs (Finite {p : List names // p.Nodup}))
  refine (hlists.image (List.map Subtype.val)).subset fun p hp => ?_
  have hnames : ∀ v ∈ p, v ∈ names := by
    intro v hv
    have hp : g.IsSimpleFrom start p.reverse.reverse := by rwa [List.reverse_reverse]
    have hwalk := (isSimpleFrom_reverse_iff.mp hp).2.1
    simpa [names] using hwalk.eq_or_mem_calls (List.mem_reverse.mpr hv)
  lift p to List names using hnames
  exact ⟨p, hp.nodup.of_map _, rfl⟩

/-! ## The levels as one list -/

/-- The partial paths to go on with from one. -/
def followers (g : CallGraph) (target : String) (maxDepth : Nat) (path : List String) :
    List (List String) :=
  if arrived target path then [] else if maxDepth < path.length then [] else extensions g path

theorem length_of_mem_followers {p q : List String} (h : q ∈ followers g target maxDepth p) :
    q.length = p.length + 1 := by
  unfold followers at h
  split_ifs at h
  · exact absurd h List.not_mem_nil
  · exact absurd h List.not_mem_nil
  · obtain ⟨-, -, -, -, rfl, -, -⟩ := mem_extensions.mp h
    rfl

/-- Followers are longer, so no list but the empty one consists of its own followers. -/
theorem eq_nil_of_eq_flatMap_followers {rest : List (List String)}
    (h : rest = rest.flatMap (followers g target maxDepth)) : rest = [] := by
  have hlong : ∀ n, ∀ p ∈ rest, n ≤ p.length := by
    intro n
    induction n with
    | zero => exact fun p _ => Nat.zero_le _
    | succ n ih =>
      intro p hp
      obtain ⟨q, hq, hpq⟩ := List.mem_flatMap.mp (h ▸ hp)
      rw [length_of_mem_followers hpq]
      exact Nat.succ_le_succ (ih q hq)
  refine List.eq_nil_iff_forall_not_mem.mpr fun p hp => ?_
  exact Nat.not_succ_le_self p.length (hlong _ p hp)

theorem nextLevel_eq_flatMap_followers {level : List (List String)}
    (h : ∀ p ∈ level, p.length ≤ maxDepth) :
    nextLevel g target level = level.flatMap (followers g target maxDepth) := by
  rw [nextLevel]
  induction level with
  | nil => rfl
  | cons p level ih =>
    rw [List.forall_mem_cons] at h
    rw [List.flatMap_cons, ← ih h.2, List.filter_cons]
    by_cases hp : arrived target p
    · simp [followers, hp]
    · simp [followers, hp, Nat.not_lt.mpr h.1]

/-- After the start, the levels list the followers of what they list. -/
theorem levels_eq (g : CallGraph) (start target : String) (maxDepth : Nat) :
    levels g start target maxDepth =
      [start] :: (levels g start target maxDepth).flatMap (followers g target maxDepth) := by
  have hnext : ∀ n ∈ List.range maxDepth, (nextLevel g target)^[n + 1] [[start]] =
      ((nextLevel g target)^[n] [[start]]).flatMap (followers g target maxDepth) := by
    intro n hn
    rw [Function.iterate_succ_apply']
    refine nextLevel_eq_flatMap_followers fun p hp => ?_
    have hlen := (mem_iterate_nextLevel.mp hp).2.1
    have := List.mem_range.mp hn
    omega
  have hlast : ((nextLevel g target)^[maxDepth] [[start]]).flatMap
      (followers g target maxDepth) = [] := by
    rw [List.flatMap_eq_nil_iff]
    intro p hp
    have hlen := (mem_iterate_nextLevel.mp hp).2.1
    rw [followers, if_pos (by omega : maxDepth < p.length), ite_self]
  calc
    levels g start target maxDepth
    _ = [start] :: (List.range maxDepth).flatMap fun n =>
        (nextLevel g target)^[n + 1] [[start]] := by
      rw [levels, List.range_succ_eq_map, List.flatMap_cons, List.flatMap_map]
      rfl
    _ = [start] :: (levels g start target maxDepth).flatMap (followers g target maxDepth) := by
      rw [List.flatMap_congr hnext, levels, List.flatMap_assoc, List.range_succ,
        List.flatMap_append, List.flatMap_singleton, hlast, List.append_nil]

theorem isSimpleFrom_of_mem_levels (hstart : g.contains start) {p : List String}
    (h : p ∈ levels g start target maxDepth) :
    g.IsSimpleFrom start p.reverse ∧ p.length ≤ maxDepth + 1 := by
  obtain ⟨n, hn, hp⟩ := List.mem_flatMap.mp h
  obtain ⟨hwalk, hlen, hnodup, -⟩ := mem_iterate_nextLevel.mp hp
  have := List.mem_range.mp hn
  exact ⟨isSimpleFrom_reverse_iff.mpr ⟨hstart, hwalk, hnodup⟩, by omega⟩

theorem length_levels_le (hstart : g.contains start) :
    (levels g start target maxDepth).length ≤ {p | g.IsSimpleFrom start p}.ncard := by
  have hnodup := (nodup_levels g start target maxDepth).map List.reverse_injective
  calc
    (levels g start target maxDepth).length
    _ = ((levels g start target maxDepth).map List.reverse).toFinset.card := by
      rw [List.toFinset_card_of_nodup hnodup, List.length_map]
    _ ≤ {p | g.IsSimpleFrom start p}.ncard := by
      rw [← Set.ncard_coe_finset]
      refine Set.ncard_le_ncard (fun p hp => ?_) (finite_isSimpleFrom g start)
      obtain ⟨q, hq, rfl⟩ := List.mem_map.mp (List.mem_toFinset.mp hp)
      exact (isSimpleFrom_of_mem_levels hstart hq).1

/-! ## The queue -/

/-- A search under way. Each partial path has its last name first. -/
structure PathQueue where
  /-- What was taken out of the queue, the first first. -/
  taken : List (List String)
  /-- The queue. -/
  waiting : List (List String)
  /-- The paths that have arrived. -/
  found : List (List String)
  deriving DecidableEq, Repr

namespace PathQueue

/-- All that was ever put into the queue. -/
def entered (q : PathQueue) : List (List String) := q.taken ++ q.waiting

/-- Before the first round only the start waits, or nothing unless both names are nodes. -/
def init (g : CallGraph) (start target : String) : PathQueue :=
  ⟨[], if g.contains start && g.contains target then [[start]] else [], []⟩

/-- One round of a search. There is none if enough paths are found, or if nothing waits. -/
def next? (g : CallGraph) (target : String) (maxDepth limit : Nat) (q : PathQueue) :
    Option PathQueue :=
  if limit ≤ q.found.length then none
  else
    match q.waiting with
    | [] => none
    | path :: waiting =>
      let q := { q with taken := q.taken ++ [path], waiting := waiting }
      if arrived target path then some { q with found := q.found ++ [path] }
      else if maxDepth < path.length then some q
      else some { q with waiting := waiting ++ extensions g path }

/-- The search after some rounds, if it comes so far. -/
def after (g : CallGraph) (target : String) (maxDepth limit : Nat) (q : PathQueue) :
    Nat → Option PathQueue
  | 0 => some q
  | n + 1 => (q.after g target maxDepth limit n).bind (next? g target maxDepth limit)

/-! ## One round -/

variable {q q' : PathQueue}

/-- All that a round does. -/
theorem eq_of_next?_eq_some (h : q.next? g target maxDepth limit = some q') :
    q.found.length < limit ∧ ∃ path waiting, q.waiting = path :: waiting ∧
      q' = ⟨q.taken ++ [path], waiting ++ followers g target maxDepth path,
        q.found ++ [path].filter (arrived target)⟩ := by
  unfold next? at h
  split_ifs at h with hlimit
  refine ⟨Nat.lt_of_not_le hlimit, ?_⟩
  cases hwaiting : q.waiting with
  | nil => simp [hwaiting] at h
  | cons path waiting =>
    refine ⟨path, waiting, rfl, ?_⟩
    simp only [hwaiting] at h
    unfold followers
    split_ifs at h ⊢ with harrived hdeep
    · simpa [harrived] using h.symm
    · simpa [harrived] using h.symm
    · simpa [harrived] using h.symm

theorem next?_eq_none_iff :
    q.next? g target maxDepth limit = none ↔ limit ≤ q.found.length ∨ q.waiting = [] := by
  unfold next?
  split_ifs with hlimit
  · simp [hlimit]
  · cases hwaiting : q.waiting with
    | nil => simp
    | cons path waiting =>
      dsimp only
      split_ifs <;> simp [hlimit]

/-! ## All rounds -/

theorem length_taken_of_after {n : Nat} (h : q.after g target maxDepth limit n = some q') :
    q'.taken.length = q.taken.length + n := by
  induction n generalizing q' with
  | zero => rw [Option.some.inj h, Nat.add_zero]
  | succ n ih =>
    obtain ⟨r, hr, hnext⟩ := Option.bind_eq_some_iff.mp h
    obtain ⟨-, path, waiting, -, rfl⟩ := eq_of_next?_eq_some hnext
    rw [List.length_append, List.length_singleton, ih hr, Nat.add_assoc]

/-- A search either comes as far as one likes, or has ended before. -/
theorem after_or_halted (g : CallGraph) (target : String) (maxDepth limit : Nat) (q : PathQueue)
    (n : Nat) : (∃ q', q.after g target maxDepth limit n = some q') ∨
      ∃ m < n, ∃ q', q.after g target maxDepth limit m = some q' ∧
        q'.next? g target maxDepth limit = none := by
  induction n with
  | zero => exact .inl ⟨q, rfl⟩
  | succ n ih =>
    obtain ⟨r, hr⟩ | ⟨m, hm, hhalted⟩ := ih
    · cases hnext : r.next? g target maxDepth limit with
      | none => exact .inr ⟨n, Nat.lt_succ_self n, r, hr, hnext⟩
      | some q' => exact .inl ⟨q', by rw [after, hr, Option.bind_some, hnext]⟩
    · exact .inr ⟨m, Nat.lt_succ_of_lt hm, hhalted⟩

theorem eq_of_after_of_halted {n : Nat} (hhalted : q.next? g target maxDepth limit = none)
    (h : q.after g target maxDepth limit n = some q') : q' = q := by
  induction n generalizing q' with
  | zero => exact (Option.some.inj h).symm
  | succ n ih =>
    obtain ⟨r, hr, hnext⟩ := Option.bind_eq_some_iff.mp h
    rw [ih hr, hhalted] at hnext
    cases hnext

/-! ## Where a search is among the levels -/

/-- What has entered the queue are the start and the followers of what was taken out, which is
where the levels begin. -/
structure Follows (g : CallGraph) (start target : String) (maxDepth limit : Nat)
    (q : PathQueue) : Prop where
  entered_eq : q.entered = [start] :: q.taken.flatMap (followers g target maxDepth)
  taken_begins : q.taken <+: levels g start target maxDepth
  found_eq : q.found = q.taken.filter (arrived target)
  length_found_le : q.found.length ≤ limit

namespace Follows

/-- What is left of the levels begins with what waits. -/
theorem exists_rest (h : q.Follows g start target maxDepth limit) :
    ∃ rest, levels g start target maxDepth = q.taken ++ rest ∧
      rest = q.waiting ++ rest.flatMap (followers g target maxDepth) := by
  obtain ⟨rest, hrest⟩ := h.taken_begins
  refine ⟨rest, hrest.symm, ?_⟩
  -- queue and levels begin alike : with the start, and the followers of what was taken out
  have hlevels := levels_eq g start target maxDepth
  rw [← hrest, List.flatMap_append, ← List.cons_append, ← h.entered_eq, entered,
    List.append_assoc] at hlevels
  exact List.append_cancel_left hlevels

theorem entered_begins (h : q.Follows g start target maxDepth limit) :
    q.entered <+: levels g start target maxDepth := by
  obtain ⟨rest, hlevels, hrest⟩ := h.exists_rest
  rw [hlevels, hrest, entered, ← List.append_assoc]
  exact List.prefix_append _ _

theorem next (h : q.Follows g start target maxDepth limit)
    (hnext : q.next? g target maxDepth limit = some q') :
    q'.Follows g start target maxDepth limit := by
  obtain ⟨hroom, path, waiting, hwaiting, rfl⟩ := eq_of_next?_eq_some hnext
  have hentered : q.entered = q.taken ++ [path] ++ waiting := by simp [entered, hwaiting]
  refine ⟨?_, ?_, ?_, ?_⟩
  · rw [List.flatMap_append, List.flatMap_singleton, ← List.cons_append, ← h.entered_eq, hentered,
      entered, List.append_assoc _ waiting]
  · exact (hentered ▸ List.prefix_append _ _).trans h.entered_begins
  · rw [List.filter_append, h.found_eq]
  · have hone := List.length_filter_le (arrived target) [path]
    rw [List.length_append]
    rw [List.length_singleton] at hone
    omega

theorem after (h : q.Follows g start target maxDepth limit) {n : Nat}
    (hafter : q.after g target maxDepth limit n = some q') :
    q'.Follows g start target maxDepth limit := by
  induction n generalizing q' with
  | zero => rwa [← Option.some.inj hafter]
  | succ n ih =>
    obtain ⟨r, hr, hnext⟩ := Option.bind_eq_some_iff.mp hafter
    exact (ih hr).next hnext

/-- A search that has ended has found the first of all that arrives. -/
theorem found_eq_take (h : q.Follows g start target maxDepth limit)
    (hhalted : q.next? g target maxDepth limit = none) :
    q.found = (arrivals g target maxDepth [[start]]).take limit := by
  rw [← filter_levels]
  rcases next?_eq_none_iff.mp hhalted with hfull | hempty
  · have hbegins := h.taken_begins.filter (arrived target)
    rw [← h.found_eq] at hbegins
    rw [← Nat.le_antisymm h.length_found_le hfull]
    exact List.prefix_iff_eq_take.mp hbegins
  · obtain ⟨rest, hlevels, hrest⟩ := h.exists_rest
    rw [hempty, List.nil_append] at hrest
    rw [hlevels, eq_nil_of_eq_flatMap_followers hrest, List.append_nil, ← h.found_eq,
      List.take_of_length_le h.length_found_le]

end Follows

section

variable (hstart : g.contains start) (htarget : g.contains target)

include hstart htarget

theorem follows_init (maxDepth limit : Nat) :
    (init g start target).Follows g start target maxDepth limit := by
  rw [init, hstart, htarget]
  exact ⟨rfl, List.nil_prefix, rfl, Nat.zero_le _⟩

/-- The search ends before it has taken out more than the levels hold. -/
theorem exists_halted (maxDepth limit : Nat) :
    ∃ n q, (init g start target).after g target maxDepth limit n = some q ∧
      q.next? g target maxDepth limit = none ∧ n ≤ (levels g start target maxDepth).length := by
  have hinit := follows_init hstart htarget maxDepth limit
  obtain ⟨q, hq⟩ | ⟨n, hn, q, hq, hhalted⟩ := after_or_halted g target maxDepth limit
    (init g start target) ((levels g start target maxDepth).length + 1)
  · -- each round takes out one path more, and there are not so many
    have hlen := length_taken_of_after hq
    have hle := (hinit.after hq).taken_begins.length_le
    omega
  · exact ⟨n, q, hq, hhalted, Nat.le_of_lt_succ hn⟩

end

theorem init_of_not_contains (h : ¬(g.contains start ∧ g.contains target)) :
    init g start target = ⟨[], [], []⟩ := by
  rw [← Bool.and_eq_true] at h
  rw [init, if_neg h]

end PathQueue

/-- The search with a queue ends, whatever the graph and the bounds are. After any number of
rounds, all that has entered the queue are simple chains of calls within the depth, and none has
entered twice. Of simple chains from the start there are finitely many, and after at most so many
rounds there is no further one. The paths found by then are those that `paths` lists. In a graph
that operations have built, the simple chains are the simple paths from the start. -/
theorem pathQueue_halts (g : CallGraph) (start target : String) (maxDepth limit : Nat) :
    (∀ n q, (PathQueue.init g start target).after g target maxDepth limit n = some q →
      q.entered.Nodup ∧
        ∀ p ∈ q.entered, g.IsSimpleFrom start p.reverse ∧ p.length ≤ maxDepth + 1) ∧
    {p | g.IsSimpleFrom start p}.Finite ∧
    (∃ n q, (PathQueue.init g start target).after g target maxDepth limit n = some q ∧
      q.next? g target maxDepth limit = none ∧ n ≤ {p | g.IsSimpleFrom start p}.ncard ∧
      q.found.map List.reverse = paths g start target maxDepth limit) ∧
    (g.Built → ∀ p, g.IsSimpleFrom start p ↔ ∃ v depth, g.IsSimplePath start v depth p) := by
  refine ⟨?_, finite_isSimpleFrom g start, ?_,
    fun hg p => isSimpleFrom_iff_isSimplePath hg.consistent⟩
  · intro n q hq
    by_cases h : g.contains start ∧ g.contains target
    · have hbegins := ((PathQueue.follows_init h.1 h.2 maxDepth limit).after hq).entered_begins
      exact ⟨(nodup_levels g start target maxDepth).sublist hbegins.sublist,
        fun p hp => isSimpleFrom_of_mem_levels h.1 (hbegins.subset hp)⟩
    · rw [PathQueue.init_of_not_contains h] at hq
      rw [PathQueue.eq_of_after_of_halted (PathQueue.next?_eq_none_iff.mpr (.inr rfl)) hq]
      exact ⟨List.nodup_nil, fun p hp => absurd hp List.not_mem_nil⟩
  · by_cases h : g.contains start ∧ g.contains target
    · obtain ⟨n, q, hq, hhalted, hn⟩ := PathQueue.exists_halted h.1 h.2 maxDepth limit
      refine ⟨n, q, hq, hhalted, hn.trans (length_levels_le h.1), ?_⟩
      have hfollows := (PathQueue.follows_init h.1 h.2 maxDepth limit).after hq
      rw [hfollows.found_eq_take hhalted, paths_eq h.1 h.2]
    · refine ⟨0, ⟨[], [], []⟩, ?_, PathQueue.next?_eq_none_iff.mpr (.inr rfl), Nat.zero_le _, ?_⟩
      · rw [PathQueue.init_of_not_contains h]
        rfl
      · rw [paths_of_not_contains h]
        rfl

/-- A loop, a cycle and a call made twice, searched to the greatest depth there is : there are
three rounds. -/
theorem pathQueue_halts_cycle :
    let node (id : String) : CallNode := ⟨id, .function, "m", 1, [], []⟩
    let nodes := (((∅ : CallGraph).addNode (node "a")).addNode (node "b")).addNode (node "c")
    let calls := ((nodes.addEdge ⟨"a", "a"⟩).addEdge ⟨"a", "b"⟩).addEdge ⟨"a", "b"⟩
    let g := ((calls.addEdge ⟨"b", "a"⟩).addEdge ⟨"b", "c"⟩).addEdge ⟨"c", "a"⟩
    let last : PathQueue := ⟨[["a"], ["b", "a"], ["c", "b", "a"]], [], [["c", "b", "a"]]⟩
    g.Built ∧ (PathQueue.init g "a" "c").after g "c" 18446744073709551615 1000 3 = some last ∧
      last.next? g "c" 18446744073709551615 1000 = none ∧
      (∀ p ∈ last.entered, ∃ v depth, g.IsSimplePath "a" v depth p.reverse) ∧
      {p | ∃ v depth, g.IsSimplePath "a" v depth p}.Finite := by
  intro node nodes calls g last
  have hnodes : nodes.Built := ((CallGraph.Built.empty.addNode _).addNode _).addNode _
  have hg : g.Built := (((((hnodes.addEdge _).addEdge _).addEdge _).addEdge _).addEdge _).addEdge _
  have hlast : (PathQueue.init g "a" "c").after g "c" 18446744073709551615 1000 3 = some last := by
    decide
  obtain ⟨hentered, hfinite, -, hsimple⟩ := pathQueue_halts g "a" "c" 18446744073709551615 1000
  refine ⟨hg, hlast, by decide, fun p hp => ?_, ?_⟩
  · exact (hsimple hg _).mp ((hentered 3 last hlast).2 p hp).1
  · simpa only [hsimple hg] using hfinite

end CodeAtlas.Query
