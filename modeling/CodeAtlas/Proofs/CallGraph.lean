import CodeAtlas.Graph.CallGraph
import Mathlib.Data.List.Basic

/-!
# What every call graph keeps

A graph records its calls three times : as edges, as the callees of its nodes and as
their callers. `Consistent` says that the three agree, that every node stands under
its own name and that every edge joins two nodes. Each operation keeps it
(`Consistent.addNode`, `Consistent.addEdge`, `Consistent.merge`), so every graph that
operations build from the empty one has it (`Built.consistent`).

What is left of a node without its calls is its label (`label?`). A consistent graph is
its labels and its edges, and the operations are described on these two : a new node
sets one label, an edge is appended, and a merge takes the labels of the second graph
before those of the first (`label?_merge`) and the edges one after the other
(`edges_merge`).
-/

namespace CodeAtlas.Graph

/-! ## Calls read off the edges -/

/-- The callees of the edges from a name, in the order of the edges. -/
def calleesIn (es : List CallEdge) (id : String) : List String :=
  (es.filter fun e => e.caller == id).map (·.callee)

/-- The callers of the edges to a name, in the order of the edges. -/
def callersIn (es : List CallEdge) (id : String) : List String :=
  (es.filter fun e => e.callee == id).map (·.caller)

theorem calleesIn_append (es es' : List CallEdge) (id : String) :
    calleesIn (es ++ es') id = calleesIn es id ++ calleesIn es' id := by
  simp [calleesIn]

theorem callersIn_append (es es' : List CallEdge) (id : String) :
    callersIn (es ++ es') id = callersIn es id ++ callersIn es' id := by
  simp [callersIn]

theorem mem_calleesIn {es : List CallEdge} {a b : String} :
    b ∈ calleesIn es a ↔ ⟨a, b⟩ ∈ es := by
  constructor
  · intro h
    obtain ⟨e, he, rfl⟩ := List.mem_map.mp h
    obtain ⟨hmem, hcaller⟩ := List.mem_filter.mp he
    rwa [← beq_iff_eq.mp hcaller]
  · intro h
    exact List.mem_map.mpr ⟨_, List.mem_filter.mpr ⟨h, by simp⟩, rfl⟩

namespace CallNode

/-- The node after an edge : its callee is one more call if the edge starts here, its
caller one more caller if it ends here. -/
def withEdge (n : CallNode) (id : String) (e : CallEdge) : CallNode :=
  { n with
    calls := n.calls ++ calleesIn [e] id
    calledBy := n.calledBy ++ callersIn [e] id }

@[simp] theorem bare_withEdge (n : CallNode) (id : String) (e : CallEdge) :
    (n.withEdge id e).bare = n.bare :=
  rfl

end CallNode

namespace CallGraph

/-! ## The operations, node by node -/

theorem contains_eq_isSome (g : CallGraph) (id : String) :
    g.contains id = (g.node? id).isSome := by
  simp [contains, node?]

@[simp] theorem node?_empty (id : String) : (∅ : CallGraph).node? id = none := by
  show (∅ : Std.ExtTreeMap String CallNode)[id]? = none
  simp

@[simp] theorem edges_empty : (∅ : CallGraph).edges = [] :=
  rfl

@[simp] theorem edges_addNode (g : CallGraph) (n : CallNode) : (g.addNode n).edges = g.edges :=
  rfl

/-- Only the node of the new name changes : it is relabelled, or added without calls. -/
theorem node?_addNode (g : CallGraph) (n : CallNode) (id : String) :
    (g.addNode n).node? id =
      if n.id = id then some ((g.node? id).elim n.bare (·.relabel n)) else g.node? id := by
  simp only [addNode, node?, Std.ExtTreeMap.getElem?_insert, Std.LawfulEqCmp.compare_eq_iff_eq]
  split_ifs with h
  · subst h
    cases g.nodes[n.id]? <;> rfl
  · rfl

@[simp] theorem edges_connect (g : CallGraph) (a b : String) :
    (g.connect a b).edges = g.edges ++ [⟨a, b⟩] :=
  rfl

theorem node?_connect (g : CallGraph) (a b id : String) :
    (g.connect a b).node? id = (g.node? id).map (·.withEdge id ⟨a, b⟩) := by
  simp only [connect, node?, Std.ExtTreeMap.getElem?_modify, Std.LawfulEqCmp.compare_eq_iff_eq]
  by_cases ha : a = id <;> by_cases hb : b = id <;>
    cases h : g.nodes[id]? <;>
    simp_all [CallNode.withEdge, calleesIn, callersIn]

theorem contains_addNode_of_contains {g : CallGraph} {id : String} (h : g.contains id)
    (n : CallNode) : (g.addNode n).contains id := by
  rw [contains_eq_isSome] at h ⊢
  rw [node?_addNode]
  split_ifs
  · rfl
  · exact h

@[simp] theorem contains_connect (g : CallGraph) (a b id : String) :
    (g.connect a b).contains id = g.contains id := by
  rw [contains_eq_isSome, contains_eq_isSome, node?_connect, Option.isSome_map]

/-- An edge is refused exactly if one of its ends is not a node. -/
theorem addEdge?_eq_none_iff (g : CallGraph) (a b : String) :
    g.addEdge? a b = none ↔ ¬(g.contains a ∧ g.contains b) := by
  simp [addEdge?]

theorem addEdge?_of_contains {g : CallGraph} {a b : String} (ha : g.contains a)
    (hb : g.contains b) : g.addEdge? a b = some (g.connect a b) := by
  simp [addEdge?, ha, hb]

theorem addEdge_of_contains {g : CallGraph} {e : CallEdge} (ha : g.contains e.caller)
    (hb : g.contains e.callee) : g.addEdge e = g.connect e.caller e.callee := by
  simp [addEdge, addEdge?_of_contains ha hb]

theorem addEdge_of_refused {g : CallGraph} {e : CallEdge}
    (h : g.addEdge? e.caller e.callee = none) : g.addEdge e = g := by
  simp [addEdge, h]

/-! ## The invariant -/

/-- The nodes stand under their names, the edges join nodes, and the calls of a node
are its edges, in their order and one for each. -/
structure Consistent (g : CallGraph) : Prop where
  id_eq : ∀ {id n}, g.node? id = some n → n.id = id
  ends : ∀ e ∈ g.edges, g.contains e.caller ∧ g.contains e.callee
  calls : ∀ {id n}, g.node? id = some n → n.calls = calleesIn g.edges id
  calledBy : ∀ {id n}, g.node? id = some n → n.calledBy = callersIn g.edges id

namespace Consistent

variable {g : CallGraph}

protected theorem empty : (∅ : CallGraph).Consistent where
  id_eq h := by simp at h
  ends e h := by simp at h
  calls h := by simp at h
  calledBy h := by simp at h

/-- A name that is no node has no edges. -/
theorem calleesIn_eq_nil (hg : g.Consistent) {id : String} (h : g.node? id = none) :
    calleesIn g.edges id = [] := by
  rw [calleesIn, List.map_eq_nil_iff, List.filter_eq_nil_iff]
  intro e he hid
  have := (hg.ends e he).1
  rw [beq_iff_eq.mp hid, contains_eq_isSome, h] at this
  simp at this

theorem callersIn_eq_nil (hg : g.Consistent) {id : String} (h : g.node? id = none) :
    callersIn g.edges id = [] := by
  rw [callersIn, List.map_eq_nil_iff, List.filter_eq_nil_iff]
  intro e he hid
  have := (hg.ends e he).2
  rw [beq_iff_eq.mp hid, contains_eq_isSome, h] at this
  simp at this

theorem callees_eq (hg : g.Consistent) (id : String) : g.callees id = calleesIn g.edges id := by
  cases h : g.node? id with
  | none => rw [hg.calleesIn_eq_nil h, callees, h, Option.map_none, Option.getD_none]
  | some n => rw [← hg.calls h, callees, h, Option.map_some, Option.getD_some]

theorem contains_of_mem_callees (hg : g.Consistent) {a b : String} (h : b ∈ g.callees a) :
    g.contains b := by
  rw [hg.callees_eq, mem_calleesIn] at h
  exact (hg.ends _ h).2

protected theorem addNode (hg : g.Consistent) (n : CallNode) : (g.addNode n).Consistent := by
  have node : ∀ {id m}, (g.addNode n).node? id = some m →
      m.id = id ∧ m.calls = calleesIn g.edges id ∧ m.calledBy = callersIn g.edges id := by
    intro id m h
    rw [node?_addNode] at h
    split_ifs at h with hid
    · cases hk : g.node? id with
      | none =>
        obtain rfl : n.bare = m := by simpa [hk] using h
        exact ⟨hid, (hg.calleesIn_eq_nil hk).symm, (hg.callersIn_eq_nil hk).symm⟩
      | some known =>
        obtain rfl : known.relabel n = m := by simpa [hk] using h
        show known.id = id ∧ known.calls = _ ∧ known.calledBy = _
        exact ⟨hg.id_eq hk, hg.calls hk, hg.calledBy hk⟩
    · exact ⟨hg.id_eq h, hg.calls h, hg.calledBy h⟩
  exact {
    id_eq := fun h => (node h).1
    ends := fun e he => ⟨contains_addNode_of_contains (hg.ends e he).1 n,
      contains_addNode_of_contains (hg.ends e he).2 n⟩
    calls := fun h => (node h).2.1
    calledBy := fun h => (node h).2.2 }

protected theorem connect (hg : g.Consistent) {a b : String} (ha : g.contains a)
    (hb : g.contains b) : (g.connect a b).Consistent := by
  have node : ∀ {id m}, (g.connect a b).node? id = some m →
      ∃ n, g.node? id = some n ∧ n.withEdge id ⟨a, b⟩ = m := by
    intro id m h
    rw [node?_connect] at h
    exact Option.map_eq_some_iff.mp h
  refine ⟨fun h => ?_, fun e he => ?_, fun h => ?_, fun h => ?_⟩
  · obtain ⟨n, hn, rfl⟩ := node h
    show n.id = _
    exact hg.id_eq hn
  · rw [contains_connect, contains_connect]
    rcases List.mem_append.mp he with he | he
    · exact hg.ends e he
    · rw [List.mem_singleton.mp he]
      exact ⟨ha, hb⟩
  · obtain ⟨n, hn, rfl⟩ := node h
    rw [edges_connect, calleesIn_append, ← hg.calls hn]
    rfl
  · obtain ⟨n, hn, rfl⟩ := node h
    rw [edges_connect, callersIn_append, ← hg.calledBy hn]
    rfl

protected theorem addEdge (hg : g.Consistent) (e : CallEdge) : (g.addEdge e).Consistent := by
  by_cases h : g.contains e.caller ∧ g.contains e.callee
  · rw [addEdge_of_contains h.1 h.2]
    exact hg.connect h.1 h.2
  · rw [addEdge_of_refused ((addEdge?_eq_none_iff g _ _).mpr h)]
    exact hg

theorem foldl_addNode (hg : g.Consistent) (ns : List CallNode) :
    (ns.foldl addNode g).Consistent := by
  induction ns generalizing g with
  | nil => exact hg
  | cons n ns ih => exact ih (hg.addNode n)

theorem foldl_addEdge (hg : g.Consistent) (es : List CallEdge) :
    (es.foldl addEdge g).Consistent := by
  induction es generalizing g with
  | nil => exact hg
  | cons e es ih => exact ih (hg.addEdge e)

/-- Nothing is asked of the second graph : its nodes and edges are added one by one. -/
protected theorem merge (hg : g.Consistent) (other : CallGraph) : (g.merge other).Consistent :=
  (hg.foldl_addNode other.nodeList).foldl_addEdge other.edges

end Consistent

/-! ## Labels -/

/-- The node of a name without its calls. -/
def label? (g : CallGraph) (id : String) : Option CallNode :=
  (g.node? id).map CallNode.bare

theorem contains_eq_isSome_label? (g : CallGraph) (id : String) :
    g.contains id = (g.label? id).isSome := by
  rw [label?, Option.isSome_map, contains_eq_isSome]

@[simp] theorem label?_empty (id : String) : (∅ : CallGraph).label? id = none := by
  simp [label?]

theorem label?_addNode {g : CallGraph} (hg : g.Consistent) (n : CallNode) (id : String) :
    (g.addNode n).label? id = if n.id = id then some n.bare else g.label? id := by
  rw [label?, node?_addNode]
  split_ifs with h
  · cases hk : g.node? id with
    | none => rfl
    | some known =>
      have hid : known.id = n.id := (hg.id_eq hk).trans h.symm
      simp [CallNode.relabel, CallNode.bare, hid]
  · rfl

@[simp] theorem label?_connect (g : CallGraph) (a b id : String) :
    (g.connect a b).label? id = g.label? id := by
  simp [label?, node?_connect, Function.comp_def]

@[simp] theorem label?_addEdge (g : CallGraph) (e : CallEdge) (id : String) :
    (g.addEdge e).label? id = g.label? id := by
  by_cases h : g.contains e.caller ∧ g.contains e.callee
  · rw [addEdge_of_contains h.1 h.2, label?_connect]
  · rw [addEdge_of_refused ((addEdge?_eq_none_iff g _ _).mpr h)]

@[simp] theorem label?_foldl_addEdge (g : CallGraph) (es : List CallEdge) (id : String) :
    (es.foldl addEdge g).label? id = g.label? id := by
  induction es generalizing g with
  | nil => rfl
  | cons e es ih => rw [List.foldl_cons, ih, label?_addEdge]

/-- Of several nodes of one name the last gives the label. -/
theorem label?_foldl_addNode {g : CallGraph} (hg : g.Consistent) (ns : List CallNode)
    (id : String) : (ns.foldl addNode g).label? id =
      ((ns.reverse.find? fun n => n.id == id).map CallNode.bare).or (g.label? id) := by
  induction ns generalizing g with
  | nil => rfl
  | cons n ns ih =>
    rw [List.foldl_cons, ih (hg.addNode n), label?_addNode hg, List.reverse_cons,
      List.find?_append, Option.map_or, Option.or_assoc]
    congr 1
    by_cases h : n.id = id <;> simp [h]

@[simp] theorem edges_foldl_addNode (g : CallGraph) (ns : List CallNode) :
    (ns.foldl addNode g).edges = g.edges := by
  induction ns generalizing g with
  | nil => rfl
  | cons n ns ih => rw [List.foldl_cons, ih, edges_addNode]

/-- Edges between nodes are all taken. -/
theorem edges_foldl_addEdge {g : CallGraph} {es : List CallEdge}
    (h : ∀ e ∈ es, g.contains e.caller ∧ g.contains e.callee) :
    (es.foldl addEdge g).edges = g.edges ++ es := by
  induction es generalizing g with
  | nil => simp
  | cons e es ih =>
    obtain ⟨ha, hb⟩ := h e (by simp)
    rw [List.foldl_cons, addEdge_of_contains ha hb, ih, edges_connect, List.append_assoc]
    · rfl
    · intro e' he'
      rw [contains_connect, contains_connect]
      exact h e' (by simp [he'])

/-! ## Merging -/

theorem mem_nodeList {g : CallGraph} (hg : g.Consistent) {n : CallNode} :
    n ∈ g.nodeList ↔ g.node? n.id = some n := by
  constructor
  · intro h
    obtain ⟨⟨id, m⟩, hm, rfl⟩ := List.mem_map.mp h
    have hn : g.node? id = some m := Std.ExtTreeMap.mem_toList_iff_getElem?_eq_some.mp hm
    rwa [← hg.id_eq hn] at hn
  · intro h
    exact List.mem_map.mpr
      ⟨(n.id, n), Std.ExtTreeMap.mem_toList_iff_getElem?_eq_some.mpr h, rfl⟩

theorem find?_nodeList {g : CallGraph} (hg : g.Consistent) (id : String) :
    (g.nodeList.reverse.find? fun n => n.id == id) = g.node? id := by
  cases hf : g.nodeList.reverse.find? fun n => n.id == id with
  | some m =>
    have hid : m.id = id := by simpa using List.find?_some hf
    have hm : m ∈ g.nodeList := by simpa using List.mem_of_find?_eq_some hf
    rw [← hid, (mem_nodeList hg).mp hm]
  | none =>
    cases hn : g.node? id with
    | none => rfl
    | some n =>
      have hid := hg.id_eq hn
      have hm : n ∈ g.nodeList := (mem_nodeList hg).mpr (by rw [hid, hn])
      simpa [hid] using List.find?_eq_none.mp hf n (by simpa using hm)

/-- The second graph's labels come before the first's. -/
theorem label?_merge {g other : CallGraph} (hg : g.Consistent) (ho : other.Consistent)
    (id : String) : (g.merge other).label? id = (other.label? id).or (g.label? id) := by
  rw [merge, label?_foldl_addEdge, label?_foldl_addNode hg, find?_nodeList ho]
  rfl

/-- Once the nodes of the second graph are added, its edges have their ends. -/
theorem ends_foldl_addNode_nodeList {g other : CallGraph} (hg : g.Consistent)
    (ho : other.Consistent) : ∀ e ∈ other.edges,
      (other.nodeList.foldl addNode g).contains e.caller ∧
        (other.nodeList.foldl addNode g).contains e.callee := by
  have hmem : ∀ {id}, other.contains id →
      (other.nodeList.foldl addNode g).contains id := by
    intro id h
    rw [contains_eq_isSome_label?, label?] at h
    rw [contains_eq_isSome_label?, label?_foldl_addNode hg, find?_nodeList ho, Option.isSome_or,
      h, Bool.true_or]
  intro e he
  exact ⟨hmem (ho.ends e he).1, hmem (ho.ends e he).2⟩

/-- No edge is refused in a merge. -/
theorem edges_merge {g other : CallGraph} (hg : g.Consistent) (ho : other.Consistent) :
    (g.merge other).edges = g.edges ++ other.edges := by
  rw [merge, edges_foldl_addEdge (ends_foldl_addNode_nodeList hg ho), edges_foldl_addNode]

/-! ## Graphs built by the operations -/

/-- The graphs that come from the empty one by adding nodes and edges and by merging
such graphs. -/
inductive Built : CallGraph → Prop
  | empty : Built ∅
  | addNode {g : CallGraph} (hg : Built g) (n : CallNode) : Built (g.addNode n)
  | addEdge {g : CallGraph} (hg : Built g) (e : CallEdge) : Built (g.addEdge e)
  | merge {g other : CallGraph} (hg : Built g) (ho : Built other) : Built (g.merge other)

theorem Built.consistent {g : CallGraph} (h : Built g) : g.Consistent := by
  induction h with
  | empty => exact Consistent.empty
  | addNode _ n ih => exact ih.addNode n
  | addEdge _ e ih => exact ih.addEdge e
  | merge _ _ ih _ => exact ih.merge _

/-- In every graph built by the operations the nodes stand under their names, the edges
join nodes, and the calls of each node are its edges, in their order and one for each;
and an edge is refused exactly if one of its ends is not a node, which changes
nothing. -/
theorem Built.mirrors_edges {g : CallGraph} (h : Built g) :
    (∀ id n, g.node? id = some n → n.id = id ∧
      n.calls = (g.edges.filter fun e => e.caller == id).map (·.callee) ∧
      n.calledBy = (g.edges.filter fun e => e.callee == id).map (·.caller)) ∧
    (∀ e ∈ g.edges, g.contains e.caller ∧ g.contains e.callee) ∧
    ∀ e, (g.addEdge? e.caller e.callee = none ↔
        ¬(g.contains e.caller ∧ g.contains e.callee)) ∧
      (g.addEdge? e.caller e.callee = none → g.addEdge e = g) := by
  have hg := h.consistent
  refine ⟨fun id n hn => ⟨hg.id_eq hn, hg.calls hn, hg.calledBy hn⟩, hg.ends, fun e => ?_⟩
  exact ⟨addEdge?_eq_none_iff g e.caller e.callee, addEdge_of_refused⟩

/-- A node that brings calls along, a loop, a refused edge, and a merge that relabels the
node and doubles the loop. -/
theorem Built.mirrors_edges_loop :
    let one := ((∅ : CallGraph).addNode ⟨"a", .function, "m", 1, ["z"], ["z"]⟩).addEdge ⟨"a", "a"⟩
    let two := ((∅ : CallGraph).addNode ⟨"a", .method, "n", 2, [], []⟩).addEdge ⟨"a", "a"⟩
    let g := (one.addEdge ⟨"a", "z"⟩).merge two
    Built g ∧ g.node? "a" = some ⟨"a", .method, "n", 2, ["a", "a"], ["a", "a"]⟩ ∧
      (["a", "a"] = (g.edges.filter fun e => e.caller == "a").map (·.callee)) ∧
      g.addEdge ⟨"a", "z"⟩ = g := by
  intro one two g
  have hb : Built g :=
    (((Built.empty.addNode _).addEdge _).addEdge _).merge ((Built.empty.addNode _).addEdge _)
  have hn : g.node? "a" = some ⟨"a", .method, "n", 2, ["a", "a"], ["a", "a"]⟩ := by decide
  obtain ⟨hnode, -, hedge⟩ := hb.mirrors_edges
  exact ⟨hb, hn, (hnode "a" _ hn).2.1, (hedge ⟨"a", "z"⟩).2 (by decide)⟩

end CallGraph

end CodeAtlas.Graph
