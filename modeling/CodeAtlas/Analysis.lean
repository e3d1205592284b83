import CodeAtlas.Facts.Report
import CodeAtlas.Graph.Build
import CodeAtlas.Source.Extract

/-!
# Analysis

All that is found out about a list of source files : facts, symbol table and call graph. A file whose text
is rejected is recorded as a failure and has no other effect.
-/

namespace CodeAtlas

open CodeAtlas.Facts CodeAtlas.Graph CodeAtlas.Source

/-- A completed analysis. -/
structure Analysis where
  report : Report
  symbols : SymbolTable
  graph : CallGraph

/-- The failure of a unit whose text is rejected. -/
def rejectedUnit (u : SourceUnit) (r : Rejection) : UnitFailure :=
  ⟨u.module, r.path, .parse, r.line, r.fault.message⟩

/-- The units among the outcomes of extraction. -/
def accepted (outcomes : List (SourceUnit × Except Rejection ExtractedUnit)) : List ExtractedUnit :=
  outcomes.filterMap fun (_, outcome) => outcome.toOption

/-- The failures among the outcomes of extraction. -/
def rejections (outcomes : List (SourceUnit × Except Rejection ExtractedUnit)) : List UnitFailure :=
  outcomes.filterMap fun (u, outcome) =>
    match outcome with
    | .ok _ => none
    | .error r => some (rejectedUnit u r)

/-- The analysis of source files, in their order. -/
def analyze (root : String) (files : List FileFacts) (units : List SourceUnit) : Analysis :=
  let outcomes := units.map fun u => (u, extract u)
  let parsed := accepted outcomes
  let failures := rejections outcomes
  let modules := parsed.map (·.facts)
  let symbols := SymbolTable.ofModules modules
  let (graph, counts) := callGraph symbols parsed
  let facts := RepoFacts.ofModules root files modules
  { report :=
      { facts
        summaries := facts.summaries
        failures
        diagnostics :=
          { unitsAnalyzed := modules.length
            unitsFailed := failures.length
            symbolCollisions := symbols.collisions
            callSites := counts.callSites
            unresolvedCalls := counts.unresolved
            callEdges := graph.edgeCount } }
    symbols
    graph }

end CodeAtlas
