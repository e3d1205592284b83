import CodeAtlas.Proofs.Counts
import CodeAtlas.Proofs.Merge

/-!
# The order of the units

Tables and graphs are made of the units one after the other, and of declarations with one
name the last one counts. Nothing else depends on the order : which names there are, how
often a name collides, which calls become edges and what is counted are the same for every
order of the units (`Graph.edges_perm`, `Graph.counts_perm`). If no name collides, what a
name stands for is the same as well (`Graph.SymbolTable.get?_ofModules_perm`), and
`analyze_order` says both of a whole analysis.
-/

namespace CodeAtlas

open CodeAtlas.Facts CodeAtlas.Graph CodeAtlas.Source

-- nothing below looks into a text
attribute [local irreducible] extract

/-! ## Tables -/

namespace Graph

namespace SymbolTable

variable {ms ms' : List ModuleFacts}

theorem declaredNames_perm (h : ms.Perm ms') : (declaredNames ms).Perm (declaredNames ms') :=
  (h.flatMap_right _).map _

theorem contains_ofModules_perm (h : ms.Perm ms') (name : String) :
    (ofModules ms).contains name = (ofModules ms').contains name := by
  rw [Bool.eq_iff_iff, contains_iff_mem_declaredNames, contains_iff_mem_declaredNames,
    (declaredNames_perm h).mem_iff]

/-- In every order as many declarations are replaced. -/
theorem collisions_ofModules_perm (h : ms.Perm ms') :
    (ofModules ms).collisions = (ofModules ms').collisions := by
  have hsize : (ofModules ms).size = (ofModules ms').size := by
    rw [size_ofModules, size_ofModules, (declaredNames_perm h).dedup.length_eq]
  have hcount := size_add_collisions ms
  rw [(h.flatMap_right _).length_eq, ← size_add_collisions ms'] at hcount
  omega

/-- Without collisions a name stands for the same in every order. -/
theorem get?_ofModules_perm (h : ms.Perm ms') (hnone : (ofModules ms).collisions = 0)
    (name : String) : (ofModules ms).get? name = (ofModules ms').get? name := by
  rw [get?_ofModules, get?_ofModules,
    lastNamed_perm (h.flatMap_right _) (nodup_names_of_collisions_eq_zero hnone)]

end SymbolTable

/-! ## Graphs -/

variable {table table' : SymbolTable} {us us' : List ExtractedUnit}

/-- Which names are known depends only on the names of the table. -/
theorem knows_congr (h : ∀ name, table.contains name = table'.contains name) :
    knows table = knows table' := by
  funext facts name
  rw [knows, knows, h]

/-- The calls that become edges are the same in every order. -/
theorem edges_perm (h : us.Perm us')
    (hknown : ∀ name, table.contains name = table'.contains name) :
    (callGraph table us).1.edges.Perm (callGraph table' us').1.edges := by
  rw [edges_callGraph, edges_callGraph, knows_congr hknown]
  exact h.flatMap_right _

/-- The counts do not depend on the order. -/
theorem counts_perm (h : us.Perm us')
    (hknown : ∀ name, table.contains name = table'.contains name) :
    (callGraph table us).2.callSites = (callGraph table' us').2.callSites ∧
      (callGraph table us).2.unresolved = (callGraph table' us').2.unresolved := by
  have hcounts := accounted_callGraph table us
  have hcounts' := accounted_callGraph table' us'
  have hsites : (callGraph table us).2.callSites = (callGraph table' us').2.callSites := by
    rw [hcounts.callSites, hcounts'.callSites, (h.flatMap_right _).length_eq]
  have houtside : (callGraph table us).2.unattributed = (callGraph table' us').2.unattributed := by
    rw [hcounts.unattributed, hcounts'.unattributed, outsideCalls, outsideCalls,
      (h.flatMap_right _).length_eq]
  have hedges : (callGraph table us).2.edges = (callGraph table' us').2.edges := by
    rw [hcounts.edges, hcounts'.edges, CallGraph.edgeCount, CallGraph.edgeCount,
      (edges_perm h hknown).length_eq]
  have hbalance := hcounts.balance
  have hbalance' := hcounts'.balance
  exact ⟨hsites, by omega⟩

end Graph

/-! ## Analyses -/

section

variable (root : String) (files : List FileFacts) {units units' : List SourceUnit}

/-- The nodes of an analysis are what its symbol table says. -/
theorem label?_analyze (units : List SourceUnit) (name : String) :
    (analyze root files units).graph.label? name =
      (analyze root files units).symbols.label? name := by
  rw [graph_analyze, symbols_analyze]
  exact label?_callGraph_ofModules (parsed units) name

theorem contains_analyze (units : List SourceUnit) (name : String) :
    (analyze root files units).graph.contains name =
      (analyze root files units).symbols.contains name := by
  rw [CallGraph.contains_eq_isSome_label?, label?_analyze, SymbolTable.label?, Option.isSome_map,
    SymbolTable.contains_eq_isSome]

theorem parsed_perm (h : units.Perm units') : (parsed units).Perm (parsed units') :=
  h.filterMap _

theorem failed_perm (h : units.Perm units') : (failed units).Perm (failed units') :=
  h.filterMap _

theorem contains_symbols_perm (h : units.Perm units') (name : String) :
    (analyze root files units).symbols.contains name =
      (analyze root files units').symbols.contains name := by
  rw [symbols_analyze, symbols_analyze]
  exact SymbolTable.contains_ofModules_perm ((parsed_perm h).map _) name

theorem edges_analyze_perm (h : units.Perm units') :
    (analyze root files units).graph.edges.Perm (analyze root files units').graph.edges := by
  rw [graph_analyze, graph_analyze]
  exact edges_perm (parsed_perm h)
    (SymbolTable.contains_ofModules_perm ((parsed_perm h).map _))

/-- All that is counted is counted alike. -/
theorem diagnostics_perm (h : units.Perm units') :
    (analyze root files units).report.diagnostics =
      (analyze root files units').report.diagnostics := by
  have hmodules := (parsed_perm h).map (·.facts)
  have hnames := SymbolTable.contains_ofModules_perm hmodules
  obtain ⟨hsites, hunresolved⟩ := counts_perm (parsed_perm h) hnames
  have hedges := (edges_perm (parsed_perm h) hnames).length_eq
  rw [diagnostics_analyze, diagnostics_analyze, Diagnostics.mk.injEq]
  exact ⟨(parsed_perm h).length_eq, (failed_perm h).length_eq,
    SymbolTable.collisions_ofModules_perm hmodules, hsites, hunresolved, hedges⟩

theorem get?_symbols_perm (h : units.Perm units')
    (hnone : (analyze root files units).report.diagnostics.symbolCollisions = 0) (name : String) :
    (analyze root files units).symbols.get? name =
      (analyze root files units').symbols.get? name := by
  rw [diagnostics_analyze] at hnone
  rw [symbols_analyze, symbols_analyze]
  exact SymbolTable.get?_ofModules_perm ((parsed_perm h).map _) hnone name

end

/-- The order of the units reaches nothing but what colliding names stand for : in every
order the counts, the names of the nodes and of the symbol table and the calls, each as
often, are the same, and without collisions the nodes and the entries of the table too. -/
theorem analyze_order {units units' : List SourceUnit} (h : units.Perm units') (root : String)
    (files : List FileFacts) :
    let a := analyze root files units
    let a' := analyze root files units'
    a.report.diagnostics = a'.report.diagnostics ∧
    (∀ name, a.graph.contains name = a'.graph.contains name) ∧
    (∀ name, a.symbols.contains name = a'.symbols.contains name) ∧
    a.graph.edges.Perm a'.graph.edges ∧
    (a.report.diagnostics.symbolCollisions = 0 →
      (∀ name n, a.graph.node? name = some n → ∃ n', a'.graph.node? name = some n' ∧
        n'.kind = n.kind ∧ n'.unit = n.unit ∧ n'.line = n.line) ∧
      ∀ name, a.symbols.get? name = a'.symbols.get? name) := by
  intro a a'
  have hnames := contains_symbols_perm root files h
  refine ⟨diagnostics_perm root files h, fun name => ?_, hnames, edges_analyze_perm root files h,
    fun hnone => ⟨fun name n hn => ?_, get?_symbols_perm root files h hnone⟩⟩
  · rw [contains_analyze, contains_analyze, hnames]
  · have hlabel : a'.graph.label? name = some n.bare := by
      rw [label?_analyze, SymbolTable.label?, ← get?_symbols_perm root files h hnone,
        ← SymbolTable.label?, ← label?_analyze, CallGraph.label?, hn, Option.map_some]
    obtain ⟨n', hn', hkind, hunit, hline⟩ := CallGraph.exists_node?_of_label? hlabel
    exact ⟨n', hn', hkind, hunit, hline⟩

/-- Two modules that call each other, in both orders : unless names collide, `f` stands for the
same in both. Without modules none collide. -/
theorem analyze_order_swap :
    let one : SourceUnit := ⟨"a", "a.py", "def f():\n    g()\n"⟩
    let two : SourceUnit := ⟨"b", "b.py", "def g():\n    f()\n"⟩
    [one, two].Perm [two, one] ∧
      (analyze "/r" [] [one, two]).report.diagnostics =
        (analyze "/r" [] [two, one]).report.diagnostics ∧
      (analyze "/r" [] [one, two]).graph.edges.Perm (analyze "/r" [] [two, one]).graph.edges ∧
      ((analyze "/r" [] [one, two]).symbols.get? "f" =
          (analyze "/r" [] [two, one]).symbols.get? "f" ∨
        0 < (analyze "/r" [] [two, one]).report.diagnostics.symbolCollisions) ∧
      (analyze "/r" [] []).report.diagnostics.symbolCollisions = 0 := by
  intro one two
  have h : [one, two].Perm [two, one] := List.Perm.swap two one []
  obtain ⟨hcounts, -, -, hedges, hclear⟩ := analyze_order h "/r" []
  refine ⟨h, hcounts, hedges, ?_, rfl⟩
  rw [← hcounts]
  rcases Nat.eq_zero_or_pos (analyze "/r" [] [one, two]).report.diagnostics.symbolCollisions with
    hnone | hsome
  · exact .inl ((hclear hnone).2 "f")
  · exact .inr hsome

end CodeAtlas
