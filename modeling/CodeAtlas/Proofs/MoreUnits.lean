import CodeAtlas.Proofs.UnitOrder
import Mathlib.Data.List.Flatten

/-!
# More units

A further unit may declare names that others call, and may declare names again that others
declare. The first makes more calls edges, and the second changes what a name stands for. No
call stops being an edge : whether it is one depends on its own module and on which names are
declared, and of these there are only more (`siteEdge?_mono`). So the edges of some units are,
in their order, among the edges of more units (`edges_sublist`), wherever the new ones stand
(`analyze_more_units`).
-/

namespace CodeAtlas

open CodeAtlas.Facts CodeAtlas.Graph CodeAtlas.Source

-- nothing below looks into a text
attribute [local irreducible] extract

namespace Graph

variable {table table' : SymbolTable} {facts : ModuleFacts}

/-! ## More names -/

theorem contains_ofModules_mono {ms ms' : List ModuleFacts} (h : ms ⊆ ms') {name : String}
    (hname : (SymbolTable.ofModules ms).contains name) :
    (SymbolTable.ofModules ms').contains name := by
  rw [SymbolTable.contains_ofModules] at *
  obtain ⟨m, hm, hdeclared⟩ := hname
  exact ⟨m, h hm, hdeclared⟩

theorem knows_mono (h : ∀ name, table.contains name → table'.contains name) {name : String}
    (hname : knows table facts name) : knows table' facts name := by
  rw [knows, Bool.or_eq_true] at *
  exact hname.imp_right (h name)

/-- A call that is an edge stays the same edge when more names are known. -/
theorem siteEdge?_mono {known known' : String → Bool} (h : ∀ name, known name → known' name)
    {s : CallSite} {e : CallEdge} (he : siteEdge? known facts s = some e) :
    siteEdge? known' facts s = some e := by
  rw [siteEdge?_eq_some_iff] at *
  exact he.imp_left (h s.callee)

/-! ## More edges -/

/-- The edges of a module's calls are among those with more names, in their order. -/
theorem siteEdges_sublist {known known' : String → Bool} (h : ∀ name, known name → known' name)
    (facts : ModuleFacts) (sites : List CallSite) :
    (sites.filterMap (siteEdge? known facts)).Sublist
      (sites.filterMap (siteEdge? known' facts)) := by
  rw [List.filterMap_eq_flatMap_toList, List.filterMap_eq_flatMap_toList]
  refine List.Sublist.flatMap_right sites fun s _ => ?_
  cases he : siteEdge? known facts s with
  | none => exact List.nil_sublist _
  | some e => rw [siteEdge?_mono h he]

/-- The edges of some modules are among those of more modules and names, in their order. -/
theorem edges_sublist {us us' : List ExtractedUnit} (hus : us.Sublist us')
    (hknown : ∀ name, table.contains name → table'.contains name) :
    (callGraph table us).1.edges.Sublist (callGraph table' us').1.edges := by
  rw [edges_callGraph, edges_callGraph]
  refine List.Sublist.trans ?_ (hus.flatMap _)
  exact List.Sublist.flatMap_right us fun u _ =>
    siteEdges_sublist (fun _ => knows_mono hknown) u.facts u.sites

end Graph

/-! ## Analyses -/

/-- A further unit, wherever it is put among the others, takes away no edge, no node and no
name of the symbol table, and leaves the edges that were there in their order. -/
theorem analyze_more_units (root : String) (files : List FileFacts)
    (before after : List SourceUnit) (u : SourceUnit) :
    let a := analyze root files (before ++ after)
    let a' := analyze root files (before ++ u :: after)
    a.graph.edges.Sublist a'.graph.edges ∧
      (∀ name, a.graph.contains name → a'.graph.contains name) ∧
      ∀ name, a.symbols.contains name → a'.symbols.contains name := by
  intro a a'
  have hunits : (parsed (before ++ after)).Sublist (parsed (before ++ u :: after)) :=
    ((List.sublist_cons_self u after).append_left before).filterMap _
  have hnames : ∀ name, (SymbolTable.ofModules ((parsed (before ++ after)).map (·.facts))).contains
      name → (SymbolTable.ofModules ((parsed (before ++ u :: after)).map (·.facts))).contains name :=
    fun _ => contains_ofModules_mono (hunits.map _).subset
  have hsymbols : ∀ name, a.symbols.contains name → a'.symbols.contains name := by
    intro name hname
    rw [symbols_analyze] at *
    exact hnames name hname
  refine ⟨?_, fun name hname => ?_, hsymbols⟩
  · rw [graph_analyze, graph_analyze]
    exact edges_sublist hunits hnames
  · rw [contains_analyze] at *
    exact hsymbols name hname

end CodeAtlas
