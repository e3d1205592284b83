import CodeAtlas.Proofs.CallGraph
import CodeAtlas.Proofs.Paths
import CodeAtlas.Query.View

/-!
# The part of a graph within reach

A view joins the depths that the search found, the nodes of the graph and its edges.
In a graph built by the operations every name within reach is a node, so no name is
dropped (`mem_nodes_reachView`), and the names are distinct, so sorting leaves no ties
(`pairwise_nodes_reachView`). The search leaves no gaps, also where the cap stops it, so
every node but the first is called from the level before it, within the view
(`reachView_induced`).
-/

namespace CodeAtlas.Query

open CodeAtlas.Graph

variable {g : CallGraph} {symbol : String} {maxDepth : Nat}

/-! ## Names within reach -/

/-- What is recorded is recorded of a node. -/
theorem contains_of_reachable (hg : g.Consistent) {v : String} {k : Nat}
    (hv : (reachable g symbol maxDepth)[v]? = some k) : g.contains symbol ∧ g.contains v := by
  by_cases hstart : g.contains symbol
  · have hsteps := ((charted_reachable hstart maxDepth).sound hv).2.1
    exact ⟨hstart, contains_of_steps hg hstart hsteps⟩
  · simp [reachable, hstart] at hv

/-- A call leads at most one level further. -/
theorem depth_le_of_mem_callees {u v : String} {j k : Nat} (hstart : g.contains symbol)
    (hu : (reachable g symbol maxDepth)[u]? = some j)
    (hv : (reachable g symbol maxDepth)[v]? = some k) (hcall : v ∈ g.callees u) : k ≤ j + 1 := by
  have hcharted := charted_reachable hstart maxDepth
  exact (hcharted.sound hv).2.2 (j + 1) ((hcharted.sound hu).2.1.succ hcall)

/-- The names within reach include the start, if it is a node. -/
theorem reachable_ne_empty (hstart : g.contains symbol) (maxDepth : Nat) :
    reachable g symbol maxDepth ≠ ∅ := by
  intro hempty
  have hroom : (reachable g symbol maxDepth).size < reachCap := by
    rw [hempty, Std.ExtTreeMap.size_empty]
    decide
  have hmem := (charted_reachable hstart maxDepth).complete hroom symbol 0 (Nat.zero_le _) .zero
  rw [hempty] at hmem
  exact Std.ExtTreeMap.not_mem_empty hmem

/-! ## The nodes of a view -/

/-- A node as it is shown at a depth. -/
def shownAt (n : CallNode) (depth : Nat) : NodeView :=
  { id := n.id, kind := n.kind, unit := n.unit, line := n.line, depth }

/-- A view shows a node of the graph. -/
def NodeView.Shows (v : NodeView) (g : CallGraph) : Prop :=
  ∃ n, g.node? v.id = some n ∧ v.kind = n.kind ∧ v.unit = n.unit ∧ v.line = n.line

theorem nodes_reachView (g : CallGraph) (symbol : String) (maxDepth : Nat) :
    (reachView g symbol maxDepth).nodes =
      ((reachable g symbol maxDepth).toList.filterMap fun e =>
        (g.node? e.1).map fun n => shownAt n e.2).mergeSort NodeView.before :=
  rfl

/-- The nodes of a view are the names within reach, none left out. -/
theorem mem_nodes_reachView (hg : g.Consistent) {v : NodeView} :
    v ∈ (reachView g symbol maxDepth).nodes ↔
      (reachable g symbol maxDepth)[v.id]? = some v.depth ∧ v.Shows g := by
  rw [nodes_reachView, List.mem_mergeSort, List.mem_filterMap]
  constructor
  · rintro ⟨⟨id, depth⟩, hmem, hv⟩
    obtain ⟨n, hn, rfl⟩ := Option.map_eq_some_iff.mp hv
    have hid : n.id = id := hg.id_eq hn
    rw [Std.ExtTreeMap.mem_toList_iff_getElem?_eq_some, ← hid] at hmem
    rw [← hid] at hn
    exact ⟨hmem, n, hn, rfl, rfl, rfl⟩
  · rintro ⟨hdepth, n, hn, hkind, hunit, hline⟩
    refine ⟨(v.id, v.depth), Std.ExtTreeMap.mem_toList_iff_getElem?_eq_some.mpr hdepth, ?_⟩
    rw [hn, Option.map_some, shownAt, hg.id_eq hn, ← hkind, ← hunit, ← hline]

/-- A recorded name has its node in the view. -/
theorem exists_mem_nodes_reachView (hg : g.Consistent) {id : String} {depth : Nat}
    (h : (reachable g symbol maxDepth)[id]? = some depth) :
    ∃ v ∈ (reachView g symbol maxDepth).nodes, v.id = id ∧ v.depth = depth := by
  have hnode := (contains_of_reachable hg h).2
  rw [CallGraph.contains_eq_isSome] at hnode
  obtain ⟨n, hn⟩ := Option.isSome_iff_exists.mp hnode
  obtain rfl : n.id = id := hg.id_eq hn
  exact ⟨shownAt n depth, (mem_nodes_reachView hg).mpr ⟨h, n, hn, rfl, rfl, rfl⟩, rfl, rfl⟩

/-- Names with their depths are put in the order of the depths, then of the names. -/
theorem pairwise_mergeSort_before (vs : List NodeView) :
    (vs.mergeSort NodeView.before).Pairwise fun a b =>
      a.depth < b.depth ∨ a.depth = b.depth ∧ a.id ≤ b.id := by
  have hbefore : ∀ a b : NodeView, a.before b ↔
      a.depth < b.depth ∨ a.depth = b.depth ∧ a.id ≤ b.id := by
    intro a b
    simp [NodeView.before]
  refine (List.pairwise_mergeSort (fun a b c hab hbc => ?_) (fun a b => ?_) vs).imp
    fun hab => (hbefore _ _).mp hab
  · rw [hbefore] at *
    rcases hab with hab | ⟨hab, hid⟩ <;> rcases hbc with hbc | ⟨hbc, hid'⟩
    · exact Or.inl (Nat.lt_trans hab hbc)
    · exact Or.inl (hbc ▸ hab)
    · exact Or.inl (hab ▸ hbc)
    · exact Or.inr ⟨hab.trans hbc, String.le_trans hid hid'⟩
  · rw [Bool.or_eq_true, hbefore, hbefore]
    rcases Nat.lt_trichotomy a.depth b.depth with h | h | h
    · exact Or.inl (Or.inl h)
    · rcases String.le_total a.id b.id with hid | hid
      · exact Or.inl (Or.inr ⟨h, hid⟩)
      · exact Or.inr (Or.inr ⟨h.symm, hid⟩)
    · exact Or.inr (Or.inl h)

/-- No name is shown twice. -/
theorem nodup_ids_reachView (hg : g.Consistent) :
    ((reachView g symbol maxDepth).nodes.map (·.id)).Nodup := by
  have hperm := (List.mergeSort_perm ((reachable g symbol maxDepth).toList.filterMap fun e =>
    (g.node? e.1).map fun n => shownAt n e.2) NodeView.before).map (·.id)
  rw [nodes_reachView, hperm.nodup_iff, List.Nodup, List.pairwise_map, List.pairwise_filterMap]
  refine Std.ExtTreeMap.distinct_keys_toList.imp fun {a b} hne v hv w hw hid => hne ?_
  obtain ⟨n, hn, rfl⟩ := Option.map_eq_some_iff.mp hv
  obtain ⟨m, hm, rfl⟩ := Option.map_eq_some_iff.mp hw
  rw [Std.LawfulEqCmp.compare_eq_iff_eq, ← hg.id_eq hn, ← hg.id_eq hm]
  exact hid

/-- The order of the nodes has no ties. -/
theorem pairwise_nodes_reachView (hg : g.Consistent) :
    (reachView g symbol maxDepth).nodes.Pairwise fun a b =>
      a.depth < b.depth ∨ a.depth = b.depth ∧ a.id < b.id := by
  have hnodup : ((reachView g symbol maxDepth).nodes.map (·.id)).Nodup := nodup_ids_reachView hg
  have hdistinct := List.pairwise_map.mp hnodup
  rw [nodes_reachView] at hdistinct ⊢
  refine ((pairwise_mergeSort_before _).and hdistinct).imp fun {a b} h => ?_
  rcases h with ⟨h | ⟨hdepth, hle⟩, hne⟩
  · exact Or.inl h
  · refine Or.inr ⟨hdepth, String.not_le.mp fun hge => hne (String.le_antisymm hle hge)⟩

theorem any_nodes_reachView (hg : g.Consistent) (id : String) :
    ((reachView g symbol maxDepth).nodes.any fun v => v.id == id) =
      (reachable g symbol maxDepth).contains id := by
  rw [Bool.eq_iff_iff, List.any_eq_true, Std.ExtTreeMap.contains_eq_isSome_getElem?,
    Option.isSome_iff_exists]
  constructor
  · rintro ⟨v, hv, hid⟩
    rw [← beq_iff_eq.mp hid]
    exact ⟨v.depth, ((mem_nodes_reachView hg).mp hv).1⟩
  · rintro ⟨depth, h⟩
    obtain ⟨v, hv, hid, -⟩ := exists_mem_nodes_reachView hg h
    exact ⟨v, hv, beq_iff_eq.mpr hid⟩

/-! ## The whole view -/

theorem mem_ids_reachView (hg : g.Consistent) {id : String} :
    id ∈ (reachView g symbol maxDepth).nodes.map (·.id) ↔ id ∈ reachable g symbol maxDepth := by
  rw [← Std.ExtTreeMap.contains_iff_mem, ← any_nodes_reachView hg]
  simp

/-- The edges of a view are those of the graph between its nodes. -/
theorem mem_edges_reachView (hg : g.Consistent) {u v : NodeView}
    (hu : u ∈ (reachView g symbol maxDepth).nodes) (hv : v ∈ (reachView g symbol maxDepth).nodes) :
    ⟨u.id, v.id⟩ ∈ (reachView g symbol maxDepth).edges ↔ v.id ∈ g.callees u.id := by
  have hends : ∀ w ∈ (reachView g symbol maxDepth).nodes,
      (reachable g symbol maxDepth).contains w.id := by
    intro w hw
    rw [Std.ExtTreeMap.contains_iff_mem, ← mem_ids_reachView hg]
    exact List.mem_map_of_mem hw
  rw [hg.callees_eq, mem_calleesIn]
  simp [reachView, hends u hu, hends v hv]

/-- The view of a name is the part of the graph that the names within reach induce : its
nodes are these names, each with its depth and as the graph has it, by depth and then by
name; its edges are the edges of the graph between them, in their order. Every node but
those of depth 0 is called in the view from the level before it, no call leads more than
one level further, and the name is found exactly if there are nodes. -/
theorem reachView_induced {g : CallGraph} (hg : g.Built) (symbol : String) (maxDepth : Nat) :
    let depths := reachable g symbol maxDepth
    let view := reachView g symbol maxDepth
    (∀ v : NodeView, v ∈ view.nodes ↔ depths[v.id]? = some v.depth ∧ v.Shows g) ∧
    (view.nodes.map (·.id)).Perm depths.keys ∧
    (view.nodes.Pairwise fun a b => a.depth < b.depth ∨ a.depth = b.depth ∧ a.id < b.id) ∧
    (view.edges = g.edges.filter fun e =>
      (view.nodes.any fun v => v.id == e.caller) && view.nodes.any fun v => v.id == e.callee) ∧
    (∀ v ∈ view.nodes, 0 < v.depth →
      ∃ u ∈ view.nodes, u.depth + 1 = v.depth ∧ ⟨u.id, v.id⟩ ∈ view.edges) ∧
    (∀ u ∈ view.nodes, ∀ v ∈ view.nodes, ⟨u.id, v.id⟩ ∈ view.edges → v.depth ≤ u.depth + 1) ∧
    (view.found ↔ view.nodes ≠ []) := by
  intro depths view
  have hcons := hg.consistent
  have hnodes : ∀ v : NodeView, v ∈ view.nodes ↔ depths[v.id]? = some v.depth ∧ v.Shows g :=
    fun v => mem_nodes_reachView hcons
  refine ⟨hnodes, ?_, pairwise_nodes_reachView hcons, ?_, fun v hv hpos => ?_,
    fun u hu v hv hedge => ?_, fun hfound hnil => ?_, fun hne => ?_⟩
  · rw [List.perm_ext_iff_of_nodup (nodup_ids_reachView hcons) Std.ExtTreeMap.nodup_keys]
    intro id
    rw [Std.ExtTreeMap.mem_keys]
    exact mem_ids_reachView hcons
  · simp only [view, any_nodes_reachView hcons]
    rfl
  · obtain ⟨k, hk⟩ := Nat.exists_eq_succ_of_ne_zero (Nat.ne_of_gt hpos)
    have hdepth := ((hnodes v).mp hv).1
    rw [hk] at hdepth
    obtain ⟨id, hid, hcall⟩ :=
      exists_caller_of_reachable (contains_of_reachable hcons hdepth).1 hdepth
    obtain ⟨u, hu, rfl, hud⟩ := exists_mem_nodes_reachView hcons hid
    exact ⟨u, hu, by rw [hud, hk], (mem_edges_reachView hcons hu hv).mpr hcall⟩
  · have hdepth := ((hnodes u).mp hu).1
    exact depth_le_of_mem_callees (contains_of_reachable hcons hdepth).1 hdepth
      ((hnodes v).mp hv).1 ((mem_edges_reachView hcons hu hv).mp hedge)
  · refine reachable_ne_empty hfound maxDepth
      (Std.ExtTreeMap.eq_empty_iff_forall_not_mem.mpr fun id hid => ?_)
    rw [← mem_ids_reachView hcons, hnil] at hid
    simp at hid
  · obtain ⟨v, hv⟩ := List.exists_mem_of_ne_nil _ hne
    exact (contains_of_reachable hcons ((hnodes v).mp hv).1).1

/-- From `a`, a call made twice, a call back, and a call that leads beyond the depth. -/
theorem reachView_induced_cut :
    let node (id : String) : CallNode := ⟨id, .function, "m", 1, [], []⟩
    let nodes := (((∅ : CallGraph).addNode (node "a")).addNode (node "b")).addNode (node "c")
    let g := (((nodes.addEdge ⟨"a", "b"⟩).addEdge ⟨"a", "b"⟩).addEdge ⟨"b", "a"⟩).addEdge ⟨"b", "c"⟩
    let view := reachView g "a" 1
    g.Built ∧ ⟨"b", .function, "m", 1, 1⟩ ∈ view.nodes ∧ (view.nodes.map (·.id)).Perm ["a", "b"] ∧
      view.edges = [⟨"a", "b"⟩, ⟨"a", "b"⟩, ⟨"b", "a"⟩] ∧ view.found := by
  intro node nodes g view
  have hg : g.Built := ((((((CallGraph.Built.empty.addNode _).addNode _).addNode _).addEdge
    _).addEdge _).addEdge _).addEdge _
  obtain ⟨hnodes, hids, -, -, -, -, hfound⟩ := reachView_induced hg "a" 1
  have hb : ⟨"b", .function, "m", 1, 1⟩ ∈ view.nodes :=
    (hnodes _).mpr ⟨by decide, ⟨"b", .function, "m", 1, ["a", "c"], ["a", "a"]⟩, by decide, rfl, rfl,
      rfl⟩
  have hkeys : (reachable g "a" 1).keys = ["a", "b"] := by decide
  exact ⟨hg, hb, hkeys ▸ hids, by decide, hfound.mpr (List.ne_nil_of_mem hb)⟩

end CodeAtlas.Query
