import CodeAtlas.Proofs.DirectedPaths
import CodeAtlas.Proofs.Lists
import CodeAtlas.Proofs.Paths
import Mathlib.Data.Set.Card

/-!
# Every simple path once

The search makes each partial path from one shorter path and one callee, so no level holds
a path twice (`nodup_iterate_nextLevel`), and paths of two levels differ in length. What
arrives is every chain of calls to the target that meets no name twice
(`mem_arrivals_iff`). So a limit that leaves room for all simple paths gives each of them
once and nothing else (`paths_lists_simple_paths`).
-/

namespace CodeAtlas.Graph.CallGraph

/-- A path of at most `maxDepth` edges that meets no node twice. -/
structure IsSimplePath (g : CallGraph) (start target : String) (maxDepth : Nat)
    (p : List String) : Prop extends g.IsPath start target p where
  nodup : p.Nodup
  length_le : p.length ≤ maxDepth + 1

/-- A path that ends where it starts, and meets no node twice, does not go anywhere. -/
theorem IsSimplePath.eq_single {g : CallGraph} {v : String} {maxDepth : Nat} {p : List String}
    (h : g.IsSimplePath v v maxDepth p) : p = [v] := by
  obtain ⟨q, rfl⟩ := List.head?_eq_some_iff.mp h.first
  cases q using List.reverseRecOn with
  | nil => rfl
  | append_singleton q u =>
    obtain rfl : u = v := by simpa [List.getLast?_cons] using h.last
    exact absurd h.nodup (by simp)

theorem isSimplePath_single {g : CallGraph} {v : String} (h : g.contains v) (maxDepth : Nat) :
    g.IsSimplePath v v maxDepth [v] where
  toIsPath := isPath_single h
  nodup := List.nodup_singleton v
  length_le := by simp

end CodeAtlas.Graph.CallGraph

namespace CodeAtlas.Query

open CodeAtlas.Graph

variable {g : CallGraph} {start target : String}

/-! ## No path twice -/

theorem nodup_extensions (g : CallGraph) (p : List String) : (extensions g p).Nodup := by
  cases p with
  | nil => exact List.nodup_nil
  | cons last before =>
    have hcallees := (nodup_eraseDups (g.callees last)).filter
      fun c => !(last :: before).contains c
    exact hcallees.map fun _ _ h => (List.cons.inj h).1

/-- Partial paths that are extended to the same path are the same. -/
theorem nodup_nextLevel {level : List (List String)} (h : level.Nodup) :
    (nextLevel g target level).Nodup := by
  refine List.nodup_flatMap.mpr ⟨fun p _ => nodup_extensions g p, ?_⟩
  refine (h.filter _).imp fun {p q} hne => ?_
  rw [Function.onFun_apply, List.disjoint_left]
  intro r hp hq
  obtain ⟨-, -, c, -, rfl, -, -⟩ := mem_extensions.mp hp
  obtain ⟨-, -, c', -, heq, -, -⟩ := mem_extensions.mp hq
  exact hne (List.cons.inj heq).2

theorem nodup_iterate_nextLevel (n : Nat) : ((nextLevel g target)^[n] [[start]]).Nodup := by
  induction n with
  | zero => exact List.nodup_singleton _
  | succ n ih =>
    rw [Function.iterate_succ_apply']
    exact nodup_nextLevel ih

theorem nodup_levels (g : CallGraph) (start target : String) (maxDepth : Nat) :
    (levels g start target maxDepth).Nodup := by
  refine List.nodup_flatMap.mpr ⟨fun n _ => nodup_iterate_nextLevel n, ?_⟩
  refine List.nodup_range.imp fun {n m} hne => ?_
  rw [Function.onFun_apply, List.disjoint_left]
  intro p hn hm
  -- the level of a path is its length
  have hlen := (mem_iterate_nextLevel.mp hn).2.1
  have hlen' := (mem_iterate_nextLevel.mp hm).2.1
  omega

theorem nodup_arrivals (g : CallGraph) (start target : String) (depth : Nat) :
    (arrivals g target depth [[start]]).Nodup := by
  rw [← filter_levels]
  exact (nodup_levels g start target depth).filter _

/-! ## All paths -/

theorem mem_arrivals_iff {depth : Nat} {p : List String} :
    p ∈ arrivals g target depth [[start]] ↔
      Walk g start p ∧ p.head? = some target ∧ p.Nodup ∧ p.length ≤ depth + 1 := by
  simp only [arrivals, List.mem_flatMap, List.mem_range, List.mem_filter, mem_iterate_nextLevel]
  constructor
  · rintro ⟨n, hn, ⟨hwalk, hlen, hnodup, -⟩, harrived⟩
    exact ⟨hwalk, by simpa [arrived] using harrived, hnodup, by omega⟩
  · rintro ⟨hwalk, hhead, hnodup, hlen⟩
    obtain ⟨q, rfl⟩ := List.head?_eq_some_iff.mp hhead
    refine ⟨q.length, by simpa using hlen, ⟨hwalk, rfl, hnodup, ?_⟩, arrived_cons.mpr rfl⟩
    exact (List.nodup_cons.mp hnodup).1

/-- All that arrives, the first node first again, are the simple paths. -/
theorem mem_map_reverse_arrivals (hg : g.Consistent) (hstart : g.contains start) {depth : Nat}
    {p : List String} : p ∈ (arrivals g target depth [[start]]).map List.reverse ↔
      g.IsSimplePath start target depth p := by
  rw [List.mem_map]
  constructor
  · rintro ⟨q, hq, rfl⟩
    obtain ⟨hwalk, hhead, hnodup, hlen⟩ := mem_arrivals_iff.mp hq
    obtain ⟨q, rfl⟩ := List.head?_eq_some_iff.mp hhead
    exact ⟨(isPath_reverse_iff hg hstart).mpr hwalk, List.nodup_reverse.mpr hnodup,
      by rwa [List.length_reverse]⟩
  · intro h
    obtain ⟨q, rfl⟩ := h.exists_reverse_eq_cons
    refine ⟨target :: q, mem_arrivals_iff.mpr ⟨(isPath_reverse_iff hg hstart).mp h.toIsPath, rfl,
      List.nodup_reverse.mp h.nodup, ?_⟩, rfl⟩
    rw [← List.length_reverse]
    exact h.length_le

theorem nodup_map_reverse_arrivals (g : CallGraph) (start target : String) (depth : Nat) :
    ((arrivals g target depth [[start]]).map List.reverse).Nodup :=
  (nodup_arrivals g start target depth).map List.reverse_injective

/-- As many paths arrive as there are lists of which they are all. -/
theorem encard_of_mem_arrivals_iff {depth : Nat} {P : List String → Prop}
    (h : ∀ p, p ∈ (arrivals g target depth [[start]]).map List.reverse ↔ P p) :
    {p | P p}.encard = (arrivals g target depth [[start]]).length := by
  have hset : {p | P p} = ↑((arrivals g target depth [[start]]).map List.reverse).toFinset := by
    ext p
    rw [List.coe_toFinset, Set.mem_ofPred_eq, Set.mem_ofPred_eq, h]
  rw [hset, Set.encard_coe_eq_coe_finsetCard,
    List.toFinset_card_of_nodup (nodup_map_reverse_arrivals g start target depth),
    List.length_map]

theorem encard_simplePaths (hg : g.Consistent) (hstart : g.contains start) (depth : Nat) :
    {p | g.IsSimplePath start target depth p}.encard =
      (arrivals g target depth [[start]]).length :=
  encard_of_mem_arrivals_iff fun _ => mem_map_reverse_arrivals hg hstart

/-- With room for all of them, the simple paths between two nodes are listed. -/
theorem paths_eq_map_reverse_arrivals (hg : g.Consistent) (hstart : g.contains start)
    (htarget : g.contains target) {depth limit : Nat}
    (hlimit : {p | g.IsSimplePath start target depth p}.encard ≤ limit) :
    paths g start target depth limit = (arrivals g target depth [[start]]).map List.reverse := by
  rw [encard_simplePaths hg hstart, Nat.cast_le] at hlimit
  rw [paths_eq hstart htarget, List.take_of_length_le hlimit]

theorem paths_of_not_contains (h : ¬(g.contains start ∧ g.contains target)) (depth limit : Nat) :
    paths g start target depth limit = [] := by
  rw [paths, if_neg]
  rwa [Bool.and_eq_true]

/-- With room for all of them, the simple paths from one node to another are listed, each
once, and nothing else is. So the only path from a node to itself stays there, and nothing
is listed for a name that is no node. -/
theorem paths_lists_simple_paths (hg : g.Built) (start target : String) (maxDepth limit : Nat)
    (hlimit : {p | g.IsSimplePath start target maxDepth p}.encard ≤ limit) :
    (paths g start target maxDepth limit).Nodup ∧
    (∀ p, p ∈ paths g start target maxDepth limit ↔ g.IsSimplePath start target maxDepth p) ∧
    (start = target → g.contains start → paths g start target maxDepth limit = [[start]]) ∧
    (¬(g.contains start ∧ g.contains target) → paths g start target maxDepth limit = []) := by
  have hmem : ∀ p, p ∈ paths g start target maxDepth limit ↔
      g.IsSimplePath start target maxDepth p := by
    intro p
    by_cases h : g.contains start ∧ g.contains target
    · rw [paths_eq_map_reverse_arrivals hg.consistent h.1 h.2 hlimit]
      exact mem_map_reverse_arrivals hg.consistent h.1
    · rw [paths_of_not_contains h]
      refine ⟨fun hp => absurd hp List.not_mem_nil, fun hp => ?_⟩
      exact absurd ⟨hp.contains_first, hp.contains_last⟩ h
  have hnodup : (paths g start target maxDepth limit).Nodup := by
    by_cases h : g.contains start ∧ g.contains target
    · rw [paths_eq_map_reverse_arrivals hg.consistent h.1 h.2 hlimit]
      exact nodup_map_reverse_arrivals g start target maxDepth
    · rw [paths_of_not_contains h]
      exact List.nodup_nil
  refine ⟨hnodup, hmem, ?_, fun h => paths_of_not_contains h maxDepth limit⟩
  rintro rfl hstart
  have hperm : (paths g start start maxDepth limit).Perm [[start]] := by
    refine (List.perm_ext_iff_of_nodup hnodup (List.nodup_singleton _)).mpr fun p => ?_
    rw [hmem, List.mem_singleton]
    constructor
    · exact CallGraph.IsSimplePath.eq_single
    · rintro rfl
      exact CallGraph.isSimplePath_single hstart maxDepth
  exact List.perm_singleton.mp hperm

/-- Two ways around, one of them with a call made twice and a call back : room for two
paths is enough. -/
theorem paths_lists_simple_paths_diamond :
    let node (id : String) : CallNode := ⟨id, .function, "m", 1, [], []⟩
    let nodes := ((((∅ : CallGraph).addNode (node "a")).addNode (node "b")).addNode
      (node "c")).addNode (node "d")
    let upper := (((nodes.addEdge ⟨"a", "b"⟩).addEdge ⟨"a", "b"⟩).addEdge ⟨"b", "a"⟩).addEdge
      ⟨"b", "d"⟩
    let g := (upper.addEdge ⟨"a", "c"⟩).addEdge ⟨"c", "d"⟩
    g.Built ∧ {p | g.IsSimplePath "a" "d" 2 p}.encard ≤ 2 ∧
      paths g "a" "d" 2 2 = [["a", "b", "d"], ["a", "c", "d"]] ∧
      ∀ p, p ∈ [["a", "b", "d"], ["a", "c", "d"]] ↔ g.IsSimplePath "a" "d" 2 p := by
  intro node nodes upper g
  have hnodes : nodes.Built := (((CallGraph.Built.empty.addNode _).addNode _).addNode _).addNode _
  have hg : g.Built := (((((hnodes.addEdge _).addEdge _).addEdge _).addEdge _).addEdge _).addEdge _
  have hlength : (arrivals g "d" 2 [["a"]]).length = 2 := by decide
  have hroom : {p | g.IsSimplePath "a" "d" 2 p}.encard ≤ (2 : Nat) := by
    rw [encard_simplePaths hg.consistent (by decide), hlength]
  have hpaths : paths g "a" "d" 2 2 = [["a", "b", "d"], ["a", "c", "d"]] := by decide
  obtain ⟨-, hmem, -, -⟩ := paths_lists_simple_paths hg "a" "d" 2 2 hroom
  exact ⟨hg, hroom, hpaths, hpaths ▸ hmem⟩

end CodeAtlas.Query
