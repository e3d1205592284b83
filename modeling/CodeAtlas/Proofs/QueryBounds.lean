import CodeAtlas.Proofs.SimplePaths

/-!
# What the bounds of a query leave out

A query with smaller bounds answers with a part of what it answers with larger ones.

Two searches for names within reach, of which one may go further out, do the same on every
level of both. The cap makes no difference : from one level to the next all that counts is
what is recorded, and a search that has reached the cap adds nothing. So the answer for a
smaller depth is what the answer for a larger one records up to it
(`reachable_eq_filter`). The cap itself is looked at before an expansion, so that the last one
goes beyond it, but no other (`size_reachable_le`).

Paths are listed the shorter first, so a smaller depth leaves out the last of them and a
limit cuts off the rest (`paths_truncated`). How many there are is counted on the calls that
each node lists (`CallGraph.IsSimpleChain`), which asks nothing of the graph. In a graph that
operations have built these are its simple paths (`isSimpleChain_iff_isSimplePath`).
-/

namespace CodeAtlas.Graph.CallGraph

/-- The names of at most `maxDepth` calls, one after the other, from one node to another, of
which none is met twice. -/
structure IsSimpleChain (g : CallGraph) (start target : String) (maxDepth : Nat)
    (p : List String) : Prop where
  contains_first : g.contains start
  contains_last : g.contains target
  joined : p.IsChain fun a b => b ∈ g.callees a
  first : p.head? = some start
  last : p.getLast? = some target
  nodup : p.Nodup
  length_le : p.length ≤ maxDepth + 1

end CodeAtlas.Graph.CallGraph

namespace CodeAtlas.Query

open CodeAtlas.Graph

variable {g : CallGraph} {start target : String}

/-! ## Names within a smaller depth -/

section

variable {depth : Nat} {level : List String} {depths : Depths}

/-- Going further out changes nothing that is nearer. -/
theorem getElem?_reachFrom_of_lt (levels : Nat) {v : String} {k : Nat} (hk : k < depth) :
    (reachFrom g levels depth level depths)[v]? = some k ↔ depths[v]? = some k := by
  induction levels generalizing depth level depths with
  | zero => rfl
  | succ levels ih =>
    obtain ⟨r, hr, hnext⟩ := exists_spreading g depth level depths
    rw [hnext, ih (Nat.lt_succ_of_lt hk), hr.getElem?_eq_some_iff]
    constructor
    · rintro (hv | ⟨-, rfl⟩)
      · exact hv
      · exact absurd hk (Nat.lt_irrefl k)
    · exact Or.inl

/-- Of two searches from one level, the shorter records what the longer does up to the last
of its depths. -/
theorem getElem?_reachFrom_add
    (hknown : ∀ (v : String) (k : Nat), depths[v]? = some k → k < depth) (levels more : Nat)
    {v : String} {k : Nat} :
    (reachFrom g levels depth level depths)[v]? = some k ↔
      (reachFrom g (levels + more) depth level depths)[v]? = some k ∧ k < depth + levels := by
  induction levels generalizing depth level depths with
  | zero =>
    rw [reachFrom, Nat.zero_add, Nat.add_zero]
    constructor
    · intro hv
      have hk := hknown v k hv
      exact ⟨(getElem?_reachFrom_of_lt more hk).mpr hv, hk⟩
    · rintro ⟨hv, hk⟩
      exact (getElem?_reachFrom_of_lt more hk).mp hv
  | succ levels ih =>
    -- both searches meet the same names on this level, whether or not the cap stops them
    obtain ⟨r, hr, hnext⟩ := exists_spreading g depth level depths
    have hrecorded : ∀ (v : String) (k : Nat), r.depths[v]? = some k → k < depth + 1 := by
      intro v k hv
      rcases hr.getElem?_eq_some_iff.mp hv with hv | ⟨-, rfl⟩
      · exact Nat.lt_succ_of_lt (hknown v k hv)
      · exact Nat.lt_succ_self k
    rw [Nat.add_right_comm levels, hnext, hnext, ih hrecorded, Nat.add_assoc depth,
      Nat.add_comm 1]

end

/-- The names within a depth are those that a search to a larger depth finds up to it, with
the same depths, wherever the cap stops one of the searches or both. -/
theorem reachable_eq_filter (g : CallGraph) (start : String) {depth larger : Nat}
    (h : depth ≤ larger) :
    reachable g start depth = (reachable g start larger).filter fun _ k => decide (k ≤ depth) := by
  refine Std.ExtTreeMap.ext_getElem? fun v => Option.ext fun k => ?_
  rw [Std.ExtTreeMap.getElem?_filter', Option.filter_eq_some_iff, decide_eq_true_eq]
  by_cases hstart : g.contains start
  · obtain ⟨more, rfl⟩ := Nat.exists_eq_add_of_le h
    have hknown : ∀ (v : String) (k : Nat), ((∅ : Depths).insert start 0)[v]? = some k → k < 1 :=
      fun v k hv => Nat.lt_succ_of_le ((Surveyed.init g start).sound hv).1
    rw [reachable, reachable, if_pos hstart, if_pos hstart,
      getElem?_reachFrom_add hknown depth more, Nat.add_comm 1, Nat.lt_succ_iff]
  · simp [reachable, hstart]

/-- A cycle with a loop, searched one call deep and three : the name two calls away is left
out, and the names found are found at the same depths. -/
theorem reachable_eq_filter_cycle :
    let node (id : String) : CallNode := ⟨id, .function, "m", 1, [], []⟩
    let nodes := (((∅ : CallGraph).addNode (node "a")).addNode (node "b")).addNode (node "c")
    let g := (((nodes.addEdge ⟨"a", "a"⟩).addEdge ⟨"a", "b"⟩).addEdge ⟨"b", "c"⟩).addEdge ⟨"c", "a"⟩
    1 ≤ 3 ∧ (reachable g "a" 3).toList = [("a", 0), ("b", 1), ("c", 2)] ∧
      (reachable g "a" 1).toList = [("a", 0), ("b", 1)] ∧
      reachable g "a" 1 = (reachable g "a" 3).filter fun _ k => decide (k ≤ 1) := by
  intro node nodes g
  exact ⟨by decide, by decide, by decide, reachable_eq_filter g "a" (by decide)⟩

/-! ## Names beyond the cap -/

/-- A map that has gained no keys but some names has grown by their number at most. -/
theorem size_le_of_mem_or {known depths : Depths} {names : List String}
    (h : ∀ v ∈ depths, v ∈ known ∨ v ∈ names) :
    depths.size ≤ known.size + names.toFinset.card := by
  have hkeys (m : Depths) : m.keys.toFinset.card = m.size := by
    rw [List.toFinset_card_of_nodup Std.ExtTreeMap.nodup_keys, Std.ExtTreeMap.length_keys]
  have hsub : depths.keys.toFinset ⊆ known.keys.toFinset ∪ names.toFinset := by
    intro v hv
    simpa using h v (by simpa using hv)
  calc
    depths.size = depths.keys.toFinset.card := (hkeys depths).symm
    _ ≤ (known.keys.toFinset ∪ names.toFinset).card := Finset.card_le_card hsub
    _ ≤ known.keys.toFinset.card + names.toFinset.card := Finset.card_union_le _ _
    _ = known.size + names.toFinset.card := by rw [hkeys]

theorem Reach.size_foldl_meet_le (depth : Nat) (r : Reach) (names : List String) :
    (names.foldl (meet depth) r).depths.size ≤ r.depths.size + names.toFinset.card := by
  refine size_le_of_mem_or fun v hv => ?_
  rw [Std.ExtTreeMap.mem_iff_isSome_getElem?, getElem?_foldl_meet, Option.isSome_or,
    Bool.or_eq_true] at hv
  refine hv.imp Std.ExtTreeMap.mem_iff_isSome_getElem?.mpr fun hname => ?_
  by_contra hout
  rw [if_neg hout] at hname
  exact Bool.false_ne_true hname

section

variable {fan : Nat} (hfan : ∀ n ∈ g.nodeList, n.calls.toFinset.card ≤ fan)

include hfan

theorem card_callees_le (v : String) : (g.callees v).toFinset.card ≤ fan := by
  rw [CallGraph.callees]
  cases hnode : g.node? v with
  | none => simp
  | some n =>
    exact hfan n (List.mem_map.mpr
      ⟨(v, n), Std.ExtTreeMap.mem_toList_iff_getElem?_eq_some.mpr hnode, rfl⟩)

/-- An expansion takes place below the cap only, and adds no more names than the node
calls. -/
theorem Reach.size_expand_le {r : Reach} (h : r.depths.size ≤ reachCap - 1 + fan) (depth : Nat)
    (v : String) : (r.expand g depth v).depths.size ≤ reachCap - 1 + fan := by
  unfold expand
  split_ifs with hcap
  · exact h
  · have hadded := size_foldl_meet_le depth r (g.callees v)
    have hcallees := card_callees_le hfan v
    omega

theorem Reach.size_foldl_expand_le {r : Reach} (h : r.depths.size ≤ reachCap - 1 + fan)
    (depth : Nat) (level : List String) :
    (level.foldl (Reach.expand g depth) r).depths.size ≤ reachCap - 1 + fan := by
  induction level generalizing r with
  | nil => exact h
  | cons v level ih => exact ih (size_expand_le hfan h depth v)

theorem size_reachFrom_le {depths : Depths} (h : depths.size ≤ reachCap - 1 + fan)
    (levels depth : Nat) (level : List String) :
    (reachFrom g levels depth level depths).size ≤ reachCap - 1 + fan := by
  fun_induction reachFrom g levels depth level depths with
  | case1 => exact h
  | case2 => exact h
  | case3 depths levels depth level _ r ih => exact ih (Reach.size_foldl_expand_le hfan h _ _)

end

/-- The cap is exceeded by one expansion at most : a node is expanded while there are fewer
names than the cap, and that adds no more than the `fan` different names a node can call. -/
theorem size_reachable_le {fan : Nat} (hfan : ∀ n ∈ g.nodeList, n.calls.toFinset.card ≤ fan)
    (start : String) (maxDepth : Nat) :
    (reachable g start maxDepth).size ≤ reachCap - 1 + fan := by
  unfold reachable
  split_ifs
  · refine size_reachFrom_le hfan ?_ maxDepth 1 [start]
    have hfirst : ((∅ : Depths).insert start 0).size ≤ 1 := Std.ExtTreeMap.size_insert_le
    have hcap : reachCap - 1 = 99 := rfl
    omega
  · exact Nat.zero_le _

/-- A function that calls two others, each of which calls two others and so on. -/
def callTree : CallGraph :=
  let node (i : Nat) : CallNode := ⟨String.singleton (.ofNat (48 + i)), .function, "m", 1, [], []⟩
  let call (i j : Nat) : CallEdge := ⟨(node i).id, (node j).id⟩
  ((List.range 50).flatMap fun i => [call i (2 * i + 1), call i (2 * i + 2)]).foldl
    CallGraph.addEdge (((List.range 101).map node).foldl CallGraph.addNode ∅)

/-- The bound is reached : with 99 names found, one of them is expanded still. -/
theorem size_reachable_callTree : (∀ n ∈ callTree.nodeList, n.calls.toFinset.card ≤ 2) ∧
    (reachable callTree "0" 6).size = reachCap - 1 + 2 := by
  have h : (∀ n ∈ callTree.nodeList, n.calls.toFinset.card ≤ 2) ∧
      reachCap - 1 + 2 ≤ (reachable callTree "0" 6).size := by
    decide +kernel
  exact ⟨h.1, Nat.le_antisymm (size_reachable_le h.1 "0" 6) h.2⟩

/-! ## Paths under smaller bounds -/

theorem arrivals_mono (g : CallGraph) (target : String) (level : List (List String))
    {depth larger : Nat} (h : depth ≤ larger) :
    arrivals g target depth level <+: arrivals g target larger level := by
  obtain ⟨more, rfl⟩ := Nat.exists_eq_add_of_le h
  have hrange : List.range (depth + 1) <+: List.range (depth + more + 1) := by
    rw [Nat.add_right_comm]
    exact ⟨_, List.range_add.symm⟩
  exact hrange.flatMap _

/-- Smaller bounds cut off paths at the end of the list. -/
theorem paths_mono (g : CallGraph) (start target : String) {depth larger limit higher : Nat}
    (hdepth : depth ≤ larger) (hlimit : limit ≤ higher) :
    paths g start target depth limit <+: paths g start target larger higher := by
  by_cases h : g.contains start ∧ g.contains target
  · rw [paths_eq h.1 h.2, paths_eq h.1 h.2]
    refine List.IsPrefix.map _ (List.prefix_take_iff.mpr ⟨?_, ?_⟩)
    · exact (List.take_prefix limit _).trans (arrivals_mono g target [[start]] hdepth)
    · exact Nat.le_trans (List.length_take_le limit _) hlimit
  · rw [paths_of_not_contains h]
    exact List.nil_prefix

/-- Between two nodes of any graph, what arrives are the simple chains of calls. -/
theorem mem_map_reverse_arrivals_iff (hstart : g.contains start)
    (htarget : g.contains target) {depth : Nat} {p : List String} :
    p ∈ (arrivals g target depth [[start]]).map List.reverse ↔
      g.IsSimpleChain start target depth p := by
  constructor
  · rw [List.mem_map]
    rintro ⟨q, hq, rfl⟩
    obtain ⟨hwalk, hhead, hnodup, hlen⟩ := mem_arrivals_iff.mp hq
    obtain ⟨hchain, hlast⟩ := walk_iff_isChain.mp hwalk
    exact ⟨hstart, htarget, List.isChain_reverse.mpr hchain, List.head?_reverse.trans hlast,
      List.getLast?_reverse.trans hhead, List.nodup_reverse.mpr hnodup,
      by rwa [List.length_reverse]⟩
  · intro h
    have hwalk : Walk g start p.reverse :=
      walk_iff_isChain.mpr ⟨List.isChain_reverse.mpr h.joined, List.getLast?_reverse.trans h.first⟩
    refine List.mem_map.mpr
      ⟨p.reverse, mem_arrivals_iff.mpr ⟨hwalk, ?_, ?_, ?_⟩, List.reverse_reverse p⟩
    · exact List.head?_reverse.trans h.last
    · exact List.nodup_reverse.mpr h.nodup
    · rw [List.length_reverse]
      exact h.length_le

/-- The calls that the nodes of a consistent graph list are its edges. -/
theorem isSimpleChain_iff_isSimplePath (hg : g.Consistent) {depth : Nat} {p : List String} :
    g.IsSimpleChain start target depth p ↔ g.IsSimplePath start target depth p := by
  constructor
  · intro h
    have harrives := (mem_map_reverse_arrivals_iff h.contains_first h.contains_last).mpr h
    exact (mem_map_reverse_arrivals hg h.contains_first).mp harrives
  · intro h
    have harrives := (mem_map_reverse_arrivals hg h.contains_first).mpr h
    exact (mem_map_reverse_arrivals_iff h.contains_first h.contains_last).mp harrives

/-- There are only so many simple chains, and as many paths are listed or as the limit
allows. -/
theorem length_paths (g : CallGraph) (start target : String) (depth limit : Nat) :
    {p | g.IsSimpleChain start target depth p}.Finite ∧
      (paths g start target depth limit).length =
        min limit {p | g.IsSimpleChain start target depth p}.ncard := by
  by_cases h : g.contains start ∧ g.contains target
  · have hcard : {p | g.IsSimpleChain start target depth p}.encard =
        (arrivals g target depth [[start]]).length :=
      encard_of_mem_arrivals_iff fun _ => mem_map_reverse_arrivals_iff h.1 h.2
    refine ⟨Set.finite_of_encard_eq_coe hcard, ?_⟩
    rw [paths_eq h.1 h.2, List.length_map, List.length_take, Set.ncard, hcard, ENat.toNat_natCast]
  · have hnone : {p | g.IsSimpleChain start target depth p} = ∅ :=
      Set.eq_empty_of_forall_notMem fun p hp => h ⟨hp.contains_first, hp.contains_last⟩
    rw [paths_of_not_contains h, hnone, Set.ncard_empty, Nat.min_zero]
    exact ⟨Set.finite_empty, rfl⟩

/-- Smaller bounds only cut off paths at the end of the list, and the number of paths listed is
that of all simple paths within the depth, or the limit if there are more. -/
theorem paths_truncated (g : CallGraph) (start target : String) {depth larger limit higher : Nat}
    (hdepth : depth ≤ larger) (hlimit : limit ≤ higher) :
    paths g start target depth limit <+: paths g start target larger higher ∧
    ({p | g.IsSimpleChain start target depth p}.Finite ∧
      (paths g start target depth limit).length =
        min limit {p | g.IsSimpleChain start target depth p}.ncard) ∧
    (g.Built → {p | g.IsSimpleChain start target depth p} =
      {p | g.IsSimplePath start target depth p}) := by
  refine ⟨paths_mono g start target hdepth hlimit, length_paths g start target depth limit,
    fun hg => ?_⟩
  ext p
  exact isSimpleChain_iff_isSimplePath hg.consistent

/-- Four simple paths, of which a depth of two calls leaves three and a limit two. One of the
calls is made twice, and one leads back. -/
theorem paths_truncated_detours :
    let node (id : String) : CallNode := ⟨id, .function, "m", 1, [], []⟩
    let nodes := ((((∅ : CallGraph).addNode (node "a")).addNode (node "b")).addNode
      (node "c")).addNode (node "d")
    let upper := (((nodes.addEdge ⟨"a", "b"⟩).addEdge ⟨"a", "b"⟩).addEdge ⟨"b", "a"⟩).addEdge
      ⟨"b", "c"⟩
    let g := (((upper.addEdge ⟨"a", "c"⟩).addEdge ⟨"b", "d"⟩).addEdge ⟨"c", "d"⟩).addEdge ⟨"a", "d"⟩
    2 ≤ 3 ∧ 2 ≤ 5 ∧
      paths g "a" "d" 3 5 = [["a", "d"], ["a", "b", "d"], ["a", "c", "d"], ["a", "b", "c", "d"]] ∧
      paths g "a" "d" 2 2 = [["a", "d"], ["a", "b", "d"]] ∧
      paths g "a" "d" 2 2 <+: paths g "a" "d" 3 5 ∧
      {p | g.IsSimplePath "a" "d" 2 p}.ncard = 3 := by
  intro node nodes upper g
  have hnodes : nodes.Built := (((CallGraph.Built.empty.addNode _).addNode _).addNode _).addNode _
  have hupper : upper.Built := (((hnodes.addEdge _).addEdge _).addEdge _).addEdge _
  have hg : g.Built := (((hupper.addEdge _).addEdge _).addEdge _).addEdge _
  have hall : paths g "a" "d" 3 5 =
      [["a", "d"], ["a", "b", "d"], ["a", "c", "d"], ["a", "b", "c", "d"]] := by decide
  have hcut : paths g "a" "d" 2 2 = [["a", "d"], ["a", "b", "d"]] := by decide
  have hbegin := (paths_truncated g "a" "d" (show 2 ≤ 3 by decide) (show 2 ≤ 5 by decide)).1
  obtain ⟨-, ⟨-, hlength⟩, hpaths⟩ := paths_truncated g "a" "d" (Nat.le_refl 2) (Nat.le_refl 5)
  have hthree : (paths g "a" "d" 2 5).length = 3 := by decide
  rw [hpaths hg, hthree] at hlength
  exact ⟨by decide, by decide, hall, hcut, hbegin, by omega⟩

end CodeAtlas.Query
