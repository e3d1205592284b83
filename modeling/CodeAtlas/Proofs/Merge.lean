import CodeAtlas.Proofs.CallGraph

/-!
# The algebra of merging

A consistent graph is determined by its labels and its edges (`Consistent.ext`). On
these a merge is the union of the labels, where the second graph's come first, and the
concatenation of the edges. So merging is associative (`merge_assoc`) and the empty graph
is neutral on both sides (`empty_merge`, `merge_empty`), the calls and the callers of
every node included : overlapping nodes get theirs in the order of the graphs.
-/

namespace CodeAtlas.Graph.CallGraph

variable {a b c g g' : CallGraph}

/-- What a label says of its node. -/
theorem exists_node?_of_label? {id : String} {n : CallNode} (h : g.label? id = some n) :
    ∃ m, g.node? id = some m ∧ m.kind = n.kind ∧ m.unit = n.unit ∧ m.line = n.line := by
  obtain ⟨m, hm, rfl⟩ := Option.map_eq_some_iff.mp h
  exact ⟨m, hm, rfl, rfl, rfl⟩

/-- A node of a consistent graph is its label with the calls that the edges say. -/
theorem Consistent.node?_eq (hg : g.Consistent) (id : String) : g.node? id =
    (g.label? id).map fun n =>
      { n with calls := calleesIn g.edges id, calledBy := callersIn g.edges id } := by
  cases hn : g.node? id with
  | none => simp [label?, hn]
  | some n => simp [label?, hn, CallNode.bare, ← hg.calls hn, ← hg.calledBy hn]

/-- Consistent graphs with the same labels and the same edges are equal. -/
theorem Consistent.ext (hg : g.Consistent) (hg' : g'.Consistent)
    (hlabel : ∀ id, g.label? id = g'.label? id) (hedges : g.edges = g'.edges) : g = g' := by
  have hnode : ∀ id, g.node? id = g'.node? id := by
    intro id
    rw [hg.node?_eq, hg'.node?_eq, hlabel, hedges]
  obtain ⟨nodes, edges⟩ := g
  obtain ⟨nodes', edges'⟩ := g'
  obtain rfl : edges = edges' := hedges
  obtain rfl : nodes = nodes' := Std.ExtTreeMap.ext_getElem? fun id => hnode id
  rfl

theorem contains_merge (ha : a.Consistent) (hb : b.Consistent) (id : String) :
    (a.merge b).contains id = (a.contains id || b.contains id) := by
  rw [contains_eq_isSome_label?, label?_merge ha hb, Option.isSome_or,
    ← contains_eq_isSome_label?, ← contains_eq_isSome_label?, Bool.or_comm]

/-- Of the edges that a merge replays each finds its ends. -/
theorem addEdge?_of_edges_eq (ha : a.Consistent) (hb : b.Consistent)
    {before after : List CallEdge} {e : CallEdge} (h : b.edges = before ++ e :: after) :
    (before.foldl addEdge (b.nodeList.foldl addNode a)).addEdge? e.caller e.callee ≠ none := by
  have hends := ends_foldl_addNode_nodeList ha hb e (by simp [h])
  rw [Ne, addEdge?_eq_none_iff, not_not]
  simp only [contains_eq_isSome_label?, label?_foldl_addEdge] at hends ⊢
  exact hends

theorem merge_assoc (ha : a.Consistent) (hb : b.Consistent) (hc : c.Consistent) :
    (a.merge b).merge c = a.merge (b.merge c) := by
  refine ((ha.merge b).merge c).ext (ha.merge _) (fun id => ?_) ?_
  · rw [label?_merge (ha.merge b) hc, label?_merge ha hb, label?_merge ha (hb.merge c),
      label?_merge hb hc, Option.or_assoc]
  · rw [edges_merge (ha.merge b) hc, edges_merge ha hb, edges_merge ha (hb.merge c),
      edges_merge hb hc, List.append_assoc]

theorem merge_empty (hg : g.Consistent) : g.merge ∅ = g := by
  refine (hg.merge ∅).ext hg (fun id => ?_) ?_
  · rw [label?_merge hg Consistent.empty, label?_empty, Option.none_or]
  · rw [edges_merge hg Consistent.empty, edges_empty, List.append_nil]

theorem empty_merge (hg : g.Consistent) : (∅ : CallGraph).merge g = g := by
  refine (Consistent.empty.merge g).ext hg (fun id => ?_) ?_
  · rw [label?_merge Consistent.empty hg, label?_empty, Option.or_none]
  · rw [edges_merge Consistent.empty hg, edges_empty, List.nil_append]

/-- A merge has the names of both graphs, the kind, unit and line of the second graph
where it knows the name and of the first elsewhere, and the edges of the first followed
by those of the second, of which none is refused. Merging is associative, and the empty
graph changes nothing on either side. -/
theorem Built.merge_laws (ha : Built a) (hb : Built b) (hc : Built c) :
    (∀ id, (a.merge b).contains id ↔ a.contains id ∨ b.contains id) ∧
    (∀ id n, b.node? id = some n → ∃ m, (a.merge b).node? id = some m ∧
      m.kind = n.kind ∧ m.unit = n.unit ∧ m.line = n.line) ∧
    (∀ id n, b.contains id = false → a.node? id = some n → ∃ m, (a.merge b).node? id = some m ∧
      m.kind = n.kind ∧ m.unit = n.unit ∧ m.line = n.line) ∧
    (a.merge b).edges = a.edges ++ b.edges ∧
    (a.merge b).edgeCount = a.edgeCount + b.edgeCount ∧
    (∀ before e after, b.edges = before ++ e :: after →
      (before.foldl CallGraph.addEdge (b.nodeList.foldl CallGraph.addNode a)).addEdge?
        e.caller e.callee ≠ none) ∧
    (a.merge b).merge c = a.merge (b.merge c) ∧
    (∅ : CallGraph).merge a = a ∧ a.merge ∅ = a := by
  have hca := ha.consistent
  have hcb := hb.consistent
  have hedges := edges_merge hca hcb
  refine ⟨fun id => ?_, fun id n hn => ?_, fun id n hnone hn => ?_, hedges, ?_,
    fun _ _ _ h => addEdge?_of_edges_eq hca hcb h, merge_assoc hca hcb hc.consistent,
    empty_merge hca, merge_empty hca⟩
  · rw [contains_merge hca hcb, Bool.or_eq_true]
  · refine exists_node?_of_label? (n := n.bare) ?_
    rw [label?_merge hca hcb, label?, hn]
    rfl
  · refine exists_node?_of_label? (n := n.bare) ?_
    rw [contains_eq_isSome_label?, Option.isSome_eq_false_iff, Option.isNone_iff_eq_none] at hnone
    rw [label?_merge hca hcb, hnone, label?, hn]
    rfl
  · rw [edgeCount, hedges, List.length_append]
    rfl

/-- Three graphs that all have the node `a`, each with a call of its own : the node ends
as in the last of them and lists the calls in the order of the graphs. -/
theorem Built.merge_laws_shared :
    let one := ((∅ : CallGraph).addNode ⟨"a", .function, "m", 1, [], []⟩).addEdge ⟨"a", "a"⟩
    let two := (((∅ : CallGraph).addNode ⟨"a", .method, "n", 2, [], []⟩).addNode
      ⟨"b", .function, "n", 5, [], []⟩).addEdge ⟨"a", "b"⟩
    let three := ((∅ : CallGraph).addNode ⟨"a", .classDef, "o", 3, [], []⟩).addEdge ⟨"a", "a"⟩
    Built one ∧ Built two ∧ Built three ∧
      (one.merge two).merge three = one.merge (two.merge three) ∧
      (one.merge (two.merge three)).node? "a" =
        some ⟨"a", .classDef, "o", 3, ["a", "b", "a"], ["a", "a"]⟩ := by
  intro one two three
  have h1 : Built one := (Built.empty.addNode _).addEdge _
  have h2 : Built two := ((Built.empty.addNode _).addNode _).addEdge _
  have h3 : Built three := (Built.empty.addNode _).addEdge _
  obtain ⟨-, -, -, -, -, -, hassoc, -, -⟩ := Built.merge_laws h1 h2 h3
  exact ⟨h1, h2, h3, hassoc, by decide⟩

end CodeAtlas.Graph.CallGraph
