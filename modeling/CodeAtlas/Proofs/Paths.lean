import CodeAtlas.Proofs.CallGraph
import CodeAtlas.Proofs.Reachable
import CodeAtlas.Query.Paths
import Mathlib.Logic.Function.Iterate

/-!
# The paths found, length by length

The search lists the paths that arrive on the first level, then those of the second and
so on, cut off at its limit (`searchPaths_eq_take`). The level after `n` calls holds
exactly the chains of `n` calls that meet no name twice and the target at most at their
end (`mem_iterate_nextLevel`).

So the first path is a shortest one (`arrivals_eq_cons`), and the two queries agree : a
name within reach at depth `k` has a first path of `k` calls, and a name to which there
is a path is within reach unless the cap is reached.
-/

namespace CodeAtlas.Query

open CodeAtlas.Graph

variable {g : CallGraph} {start target : String}

/-! ## Levels of partial paths -/

/-- The partial paths one call longer than those of a level that have not arrived. -/
def nextLevel (g : CallGraph) (target : String) (level : List (List String)) :
    List (List String) :=
  (level.filter fun p => !arrived target p).flatMap (extensions g)

/-- The paths that arrive within some calls, the shorter first. -/
def arrivals (g : CallGraph) (target : String) (depth : Nat) (level : List (List String)) :
    List (List String) :=
  (List.range (depth + 1)).flatMap fun n =>
    ((nextLevel g target)^[n] level).filter (arrived target)

/-- The partial paths that a search meets, the shorter first. -/
def levels (g : CallGraph) (start target : String) (maxDepth : Nat) : List (List String) :=
  (List.range (maxDepth + 1)).flatMap fun n => (nextLevel g target)^[n] [[start]]

theorem filter_levels (g : CallGraph) (start target : String) (maxDepth : Nat) :
    (levels g start target maxDepth).filter (arrived target) =
      arrivals g target maxDepth [[start]] :=
  List.filter_flatMap

theorem arrivals_zero (g : CallGraph) (target : String) (level : List (List String)) :
    arrivals g target 0 level = level.filter (arrived target) := by
  simp [arrivals]

theorem arrivals_succ (g : CallGraph) (target : String) (depth : Nat)
    (level : List (List String)) :
    arrivals g target (depth + 1) level =
      level.filter (arrived target) ++ arrivals g target depth (nextLevel g target level) := by
  rw [arrivals, List.range_succ_eq_map, List.flatMap_cons, List.flatMap_map]
  rfl

theorem arrivals_nil (g : CallGraph) (target : String) (depth : Nat) :
    arrivals g target depth [] = [] := by
  induction depth with
  | zero => rfl
  | succ depth ih =>
    rw [arrivals_succ]
    exact ih

theorem filter_arrived_prefix_arrivals (g : CallGraph) (target : String) (depth : Nat)
    (level : List (List String)) :
    level.filter (arrived target) <+: arrivals g target depth level := by
  cases depth with
  | zero => exact ⟨[], by rw [List.append_nil, arrivals_zero]⟩
  | succ depth =>
    rw [arrivals_succ]
    exact List.prefix_append _ _

/-- The search lists the first paths of all that arrive. -/
theorem searchPaths_eq_take (g : CallGraph) (target : String) (depth room : Nat)
    (level : List (List String)) :
    searchPaths g target depth room level = (arrivals g target depth level).take room := by
  fun_induction searchPaths g target depth room level with
  | case1 => rw [arrivals_nil, List.take_nil]
  | case2 depth room level _ done hfull =>
    obtain ⟨rest, hrest⟩ := filter_arrived_prefix_arrivals g target depth level
    rw [← hrest, List.take_append_of_le_length hfull]
  | case3 room level _ done hroom =>
    rw [arrivals_zero, List.take_of_length_le (Nat.le_of_not_le hroom)]
  | case4 room level _ done hroom depth ih =>
    rw [ih, arrivals_succ, List.take_append, List.take_of_length_le (Nat.le_of_not_le hroom)]
    rfl

/-! ## The paths of a level -/

theorem mem_extensions {p q : List String} :
    q ∈ extensions g p ↔ ∃ last before c, p = last :: before ∧ q = c :: p ∧
      c ∈ g.callees last ∧ c ∉ p := by
  cases p with
  | nil => simp [extensions]
  | cons last before =>
    simp only [extensions, List.mem_map, List.mem_filter, List.mem_eraseDups]
    constructor
    · rintro ⟨c, ⟨hc, hnew⟩, rfl⟩
      exact ⟨last, before, c, rfl, rfl, hc, by simpa using hnew⟩
    · rintro ⟨_, _, c, hp, rfl, hc, hnew⟩
      obtain ⟨rfl, rfl⟩ := List.cons.inj hp
      exact ⟨c, ⟨hc, by simpa using hnew⟩, rfl⟩

theorem arrived_cons {v : String} {p : List String} : arrived target (v :: p) ↔ v = target := by
  simp [arrived]

/-- The level after some calls holds the chains of so many calls that meet no name twice
and do not go on from the target. -/
theorem mem_iterate_nextLevel {n : Nat} {p : List String} :
    p ∈ (nextLevel g target)^[n] [[start]] ↔
      Walk g start p ∧ p.length = n + 1 ∧ p.Nodup ∧ target ∉ p.tail := by
  induction n generalizing p with
  | zero =>
    rw [Function.iterate_zero, id, List.mem_singleton]
    constructor
    · rintro rfl
      exact ⟨Walk.single, rfl, by simp, by simp⟩
    · rintro ⟨hwalk, hlen, -⟩
      cases hwalk with
      | single => rfl
      | step => simp at hlen
  | succ n ih =>
    rw [Function.iterate_succ_apply', nextLevel, List.mem_flatMap]
    constructor
    · rintro ⟨q, hq, hext⟩
      obtain ⟨hq, hgoes⟩ := List.mem_filter.mp hq
      obtain ⟨last, before, c, rfl, rfl, hc, hnew⟩ := mem_extensions.mp hext
      obtain ⟨hwalk, hlen, hnodup, htail⟩ := ih.mp hq
      refine ⟨hwalk.step hc, by simpa using hlen, List.nodup_cons.mpr ⟨hnew, hnodup⟩, ?_⟩
      rintro hmem
      rcases List.mem_cons.mp hmem with rfl | hmem
      · simp [arrived] at hgoes
      · exact htail hmem
    · rintro ⟨hwalk, hlen, hnodup, htail⟩
      cases hwalk with
      | single => simp at hlen
      | @step a c before hwalk hc =>
        obtain ⟨hnew, hnodup⟩ := List.nodup_cons.mp hnodup
        rw [List.tail_cons, List.mem_cons, not_or] at htail
        refine ⟨a :: before, List.mem_filter.mpr ⟨ih.mpr ⟨hwalk, by simpa using hlen, hnodup,
          htail.2⟩, ?_⟩, mem_extensions.mpr ⟨a, before, c, rfl, rfl, hc, hnew⟩⟩
        simpa [arrived] using Ne.symm htail.1

/-- A path that arrives on a level is a chain of so many calls to the target. -/
theorem steps_of_arrived {n : Nat} {p : List String}
    (hp : p ∈ ((nextLevel g target)^[n] [[start]]).filter (arrived target)) :
    p.length = n + 1 ∧ Steps g start n target := by
  obtain ⟨hp, harrived⟩ := List.mem_filter.mp hp
  obtain ⟨hwalk, hlen, -⟩ := mem_iterate_nextLevel.mp hp
  cases p with
  | nil => simp at hlen
  | cons v p =>
    obtain rfl := arrived_cons.mp harrived
    have hn : p.length = n := by simpa using hlen
    exact ⟨hlen, hn ▸ hwalk.steps⟩

/-- A shortest chain to the target arrives on its level. -/
theorem exists_arrived {k : Nat} (h : IsDist g start k target) :
    ∃ p, p ∈ ((nextLevel g target)^[k] [[start]]).filter (arrived target) := by
  obtain ⟨p, hwalk, hlen, hnodup, -⟩ := h.exists_walk
  refine ⟨target :: p, List.mem_filter.mpr ⟨mem_iterate_nextLevel.mpr ?_, arrived_cons.mpr rfl⟩⟩
  exact ⟨hwalk, by simp [hlen], hnodup, (List.nodup_cons.mp hnodup).1⟩

/-- The first path that arrives has as many calls as the target's distance. -/
theorem arrivals_eq_cons {k depth : Nat} (h : IsDist g start k target) (hk : k ≤ depth) :
    ∃ p ps, arrivals g target depth [[start]] = p :: ps ∧ p.length = k + 1 := by
  obtain ⟨m, rfl⟩ := Nat.exists_eq_add_of_le hk
  have hbefore : ((List.range k).flatMap fun n =>
      ((nextLevel g target)^[n] [[start]]).filter (arrived target)) = [] := by
    rw [List.flatMap_eq_nil_iff]
    intro n hn
    rw [List.eq_nil_iff_forall_not_mem]
    intro p hp
    have := h.2 n (steps_of_arrived hp).2
    have := List.mem_range.mp hn
    omega
  obtain ⟨q, hq⟩ := exists_arrived h
  obtain ⟨p, ps, hps⟩ := List.exists_cons_of_ne_nil (List.ne_nil_of_mem hq)
  have hlen : p.length = k + 1 := (steps_of_arrived (hps ▸ List.mem_cons_self)).1
  rw [arrivals, Nat.add_assoc, List.range_add, List.flatMap_append, hbefore, List.nil_append,
    List.range_succ_eq_map, List.map_cons, List.flatMap_cons, Nat.add_zero, hps]
  exact ⟨p, _, rfl, hlen⟩

theorem steps_of_mem_arrivals {depth : Nat} {p : List String}
    (hp : p ∈ arrivals g target depth [[start]]) : ∃ n ≤ depth, Steps g start n target := by
  obtain ⟨n, hn, hp⟩ := List.mem_flatMap.mp hp
  exact ⟨n, Nat.lt_succ_iff.mp (List.mem_range.mp hn), (steps_of_arrived hp).2⟩

/-! ## Both queries -/

theorem paths_eq (hstart : g.contains start) (htarget : g.contains target) (maxDepth limit : Nat) :
    paths g start target maxDepth limit =
      ((arrivals g target maxDepth [[start]]).take limit).map List.reverse := by
  rw [paths, hstart, htarget, searchPaths_eq_take]
  rfl

theorem contains_of_steps (hg : g.Consistent) (hstart : g.contains start) {n : Nat} {v : String}
    (h : Steps g start n v) : g.contains v := by
  cases h with
  | zero => exact hstart
  | succ _ hv => exact hg.contains_of_mem_callees hv

/-- A name within reach at depth `k` has a path, the first with exactly `k` calls; and a
name to which there is a path is within reach, unless the cap is reached. -/
theorem reachable_agrees_with_paths (hg : g.Built) (start target : String) (maxDepth : Nat)
    {limit : Nat} (hlimit : 1 ≤ limit) :
    (∀ k, (reachable g start maxDepth)[target]? = some k →
      ∃ p ps, paths g start target maxDepth limit = p :: ps ∧ p.length = k + 1) ∧
    (paths g start target maxDepth limit ≠ [] →
      target ∈ reachable g start maxDepth ∨ reachCap ≤ (reachable g start maxDepth).size) := by
  by_cases hstart : g.contains start
  · have hcharted := charted_reachable hstart maxDepth
    refine ⟨fun k hk => ?_, fun hne => ?_⟩
    · obtain ⟨hle, hdist⟩ := hcharted.sound hk
      obtain ⟨p, ps, harrivals, hlen⟩ := arrivals_eq_cons hdist hle
      obtain ⟨room, rfl⟩ := Nat.exists_eq_add_of_le' hlimit
      rw [paths_eq hstart (contains_of_steps hg.consistent hstart hdist.1), harrivals,
        List.take_succ_cons, List.map_cons]
      exact ⟨p.reverse, _, rfl, by rw [List.length_reverse, hlen]⟩
    · by_cases htarget : g.contains target
      · rw [paths_eq hstart htarget] at hne
        obtain ⟨q, hq⟩ := List.exists_mem_of_ne_nil _ hne
        obtain ⟨p, hp, rfl⟩ := List.mem_map.mp hq
        obtain ⟨n, hn, hsteps⟩ := steps_of_mem_arrivals (List.mem_of_mem_take hp)
        rcases Nat.lt_or_ge (reachable g start maxDepth).size reachCap with hroom | hcap
        · exact Or.inl (hcharted.complete hroom target n hn hsteps)
        · exact Or.inr hcap
      · simp [paths, htarget] at hne
  · refine ⟨fun k hk => ?_, fun hne => ?_⟩
    · simp [reachable, hstart] at hk
    · simp [paths, hstart] at hne

/-- A name two calls away, behind a loop and a cycle. -/
theorem reachable_agrees_with_paths_cycle :
    let node (id : String) : CallNode := ⟨id, .function, "m", 1, [], []⟩
    let nodes := (((∅ : CallGraph).addNode (node "a")).addNode (node "b")).addNode (node "c")
    let g := (((nodes.addEdge ⟨"a", "a"⟩).addEdge ⟨"a", "b"⟩).addEdge ⟨"b", "a"⟩).addEdge ⟨"b", "c"⟩
    g.Built ∧ (reachable g "a" 2)["c"]? = some 2 ∧
      (∃ p ps, paths g "a" "c" 2 1 = p :: ps ∧ p.length = 3) ∧
      ("c" ∈ reachable g "a" 2 ∨ reachCap ≤ (reachable g "a" 2).size) := by
  intro node nodes g
  have hg : g.Built := ((((((CallGraph.Built.empty.addNode _).addNode _).addNode _).addEdge
    _).addEdge _).addEdge _).addEdge _
  have hreach : (reachable g "a" 2)["c"]? = some 2 := by decide
  obtain ⟨hpath, hback⟩ := reachable_agrees_with_paths hg "a" "c" 2 (Nat.le_refl 1)
  exact ⟨hg, hreach, hpath 2 hreach, hback (by decide)⟩

end CodeAtlas.Query
