import CodeAtlas.Analysis
import Mathlib.Data.List.Forall2

/-!
# Units that are rejected

An analysis is made of the units whose text is accepted (`parsed`) and of one failure for
each other unit (`failed`). All but the failures and their number comes from the accepted
units alone, so an analysis without the rejected units differs in nothing else
(`analyze_isolates_failures`).
-/

namespace CodeAtlas

open CodeAtlas.Facts CodeAtlas.Graph CodeAtlas.Source

variable (root : String) (files : List FileFacts) (units : List SourceUnit)

/-! ## Accepted and rejected units -/

/-- A rejection names the path of its unit. -/
theorem path_of_extract_eq_error {u : SourceUnit} {r : Rejection} (h : extract u = .error r) :
    r.path = u.path := by
  have htree : checkedTree u.path u.text = .error r := by
    unfold extract at h
    cases hc : checkedTree u.path u.text with
    | ok root => simp [hc, Except.map] at h
    | error r' => simpa [hc, Except.map] using h
  unfold checkedTree at htree
  split at htree
  · rw [← Except.error.inj htree]
  · split at htree
    · rw [← Except.error.inj htree]
    · simp at htree

/-- What is extracted from a unit bears the name of its module. -/
theorem module_of_extract_eq_ok {u : SourceUnit} {e : ExtractedUnit} (h : extract u = .ok e) :
    e.facts.module = u.module := by
  unfold extract at h
  cases hc : checkedTree u.path u.text with
  | ok root =>
    rw [hc] at h
    rw [← Except.ok.inj h]
    rfl
  | error r => simp [hc, Except.map] at h

-- nothing below looks into a text
attribute [local irreducible] extract

/-- The units whose text is accepted. -/
def parsable (units : List SourceUnit) : List SourceUnit := units.filter fun u => (extract u).isOk

/-- The units whose text is rejected. -/
def unparsable (units : List SourceUnit) : List SourceUnit :=
  units.filter fun u => !(extract u).isOk

/-- What is extracted from the units whose text is accepted. -/
def parsed (units : List SourceUnit) : List ExtractedUnit :=
  units.filterMap fun u => (extract u).toOption

/-- The failure of a unit, if its text is rejected. -/
def failure? (u : SourceUnit) : Option UnitFailure :=
  match extract u with
  | .ok _ => none
  | .error r => some (rejectedUnit u r)

/-- The failures of the units whose text is rejected. -/
def failed (units : List SourceUnit) : List UnitFailure :=
  units.filterMap failure?

theorem accepted_outcomes : accepted (units.map fun u => (u, extract u)) = parsed units := by
  rw [accepted, List.filterMap_map]
  rfl

theorem rejections_outcomes : rejections (units.map fun u => (u, extract u)) = failed units := by
  rw [rejections, List.filterMap_map]
  rfl

/-- Nothing is extracted from the units that are rejected. -/
theorem parsed_parsable : parsed (parsable units) = parsed units := by
  rw [parsed, parsable, List.filterMap_filter]
  refine List.filterMap_congr fun u _ => ?_
  cases h : extract u <;> simp [Except.isOk, Except.toBool, Except.toOption]

theorem parsable_cons_of_ok {units : List SourceUnit} {u : SourceUnit} {e : ExtractedUnit}
    (h : extract u = .ok e) : parsable (u :: units) = u :: parsable units :=
  List.filter_cons_of_pos (by simp [h, Except.isOk, Except.toBool])

theorem parsable_cons_of_error {units : List SourceUnit} {u : SourceUnit} {r : Rejection}
    (h : extract u = .error r) : parsable (u :: units) = parsable units :=
  List.filter_cons_of_neg (by simp [h, Except.isOk, Except.toBool])

theorem unparsable_cons_of_ok {units : List SourceUnit} {u : SourceUnit} {e : ExtractedUnit}
    (h : extract u = .ok e) : unparsable (u :: units) = unparsable units :=
  List.filter_cons_of_neg (by simp [h, Except.isOk, Except.toBool])

theorem unparsable_cons_of_error {units : List SourceUnit} {u : SourceUnit} {r : Rejection}
    (h : extract u = .error r) : unparsable (u :: units) = u :: unparsable units :=
  List.filter_cons_of_pos (by simp [h, Except.isOk, Except.toBool])

theorem parsed_cons_of_ok {units : List SourceUnit} {u : SourceUnit} {e : ExtractedUnit}
    (h : extract u = .ok e) : parsed (u :: units) = e :: parsed units := by
  simp [parsed, h, Except.toOption]

theorem parsed_cons_of_error {units : List SourceUnit} {u : SourceUnit} {r : Rejection}
    (h : extract u = .error r) : parsed (u :: units) = parsed units := by
  simp [parsed, h, Except.toOption]

theorem failed_cons_of_ok {units : List SourceUnit} {u : SourceUnit} {e : ExtractedUnit}
    (h : extract u = .ok e) : failed (u :: units) = failed units := by
  simp [failed, failure?, h]

theorem failed_cons_of_error {units : List SourceUnit} {u : SourceUnit} {r : Rejection}
    (h : extract u = .error r) : failed (u :: units) = rejectedUnit u r :: failed units := by
  simp [failed, failure?, h]

/-- The modules that are found are named as the accepted units. -/
theorem map_module_parsed :
    (parsed units).map (·.facts.module) = (parsable units).map (·.module) := by
  induction units with
  | nil => rfl
  | cons u units ih =>
    cases h : extract u with
    | ok e =>
      rw [parsed_cons_of_ok h, parsable_cons_of_ok h, List.map_cons, List.map_cons, ih,
        module_of_extract_eq_ok h]
    | error r => rw [parsed_cons_of_error h, parsable_cons_of_error h, ih]

/-- Every unit is either accepted or rejected. -/
theorem length_parsed_add_length_failed :
    (parsed units).length + (failed units).length = units.length := by
  induction units with
  | nil => rfl
  | cons u units ih =>
    cases h : extract u with
    | ok e =>
      rw [parsed_cons_of_ok h, failed_cons_of_ok h, List.length_cons, List.length_cons]
      omega
    | error r =>
      rw [parsed_cons_of_error h, failed_cons_of_error h, List.length_cons, List.length_cons]
      omega

/-! ## What an analysis is made of -/

theorem symbols_analyze :
    (analyze root files units).symbols = .ofModules ((parsed units).map (·.facts)) := by
  rw [← accepted_outcomes]
  rfl

theorem graph_analyze : (analyze root files units).graph =
    (callGraph (.ofModules ((parsed units).map (·.facts))) (parsed units)).1 := by
  rw [← accepted_outcomes]
  rfl

theorem facts_analyze : (analyze root files units).report.facts =
    RepoFacts.ofModules root files ((parsed units).map (·.facts)) := by
  rw [← accepted_outcomes]
  rfl

theorem summaries_analyze : (analyze root files units).report.summaries =
    (analyze root files units).report.facts.summaries :=
  rfl

theorem failures_analyze : (analyze root files units).report.failures = failed units := by
  rw [← rejections_outcomes]
  rfl

theorem diagnostics_analyze : (analyze root files units).report.diagnostics =
    let symbols := SymbolTable.ofModules ((parsed units).map (·.facts))
    let (graph, counts) := callGraph symbols (parsed units)
    { unitsAnalyzed := (parsed units).length
      unitsFailed := (failed units).length
      symbolCollisions := symbols.collisions
      callSites := counts.callSites
      unresolvedCalls := counts.unresolved
      callEdges := graph.edgeCount } := by
  rw [← accepted_outcomes, ← rejections_outcomes, ← List.length_map]
  rfl

/-! ## Isolation -/

/-- The accepted units are extracted one by one. -/
theorem forall₂_extract_parsed :
    List.Forall₂ (fun u e => extract u = .ok e) (parsable units) (parsed units) := by
  induction units with
  | nil => exact .nil
  | cons u units ih =>
    cases h : extract u with
    | ok e =>
      rw [parsed_cons_of_ok h, parsable_cons_of_ok h]
      exact .cons h ih
    | error r =>
      rw [parsed_cons_of_error h, parsable_cons_of_error h]
      exact ih

/-- Whether a failure records the rejection of a unit. -/
def Records (u : SourceUnit) (f : UnitFailure) : Prop :=
  f.module = u.module ∧ f.path = u.path ∧ f.kind = .parse ∧
    ∃ r, extract u = .error r ∧ f.line = r.line ∧ f.message = r.fault.message

/-- The failures record the rejected units one by one. -/
theorem forall₂_records_failed :
    List.Forall₂ Records (unparsable units) (failed units) := by
  induction units with
  | nil => exact .nil
  | cons u units ih =>
    cases h : extract u with
    | ok e =>
      rw [failed_cons_of_ok h, unparsable_cons_of_ok h]
      exact ih
    | error r =>
      rw [failed_cons_of_error h, unparsable_cons_of_error h]
      exact .cons ⟨rfl, path_of_extract_eq_error h, rfl, r, h, rfl, rfl⟩ ih

/-- The rejected units leave no trace but their failures : without them the symbol table,
the call graph, the facts, the summaries and the other counts are the same. The modules
are those of the accepted units and the failures record the rejected ones, both in the
order of the units, and every unit is counted once. -/
theorem analyze_isolates_failures (root : String) (files : List FileFacts)
    (units : List SourceUnit) :
    (analyze root files units).symbols = (analyze root files (parsable units)).symbols ∧
    (analyze root files units).graph = (analyze root files (parsable units)).graph ∧
    (analyze root files units).report.facts =
      (analyze root files (parsable units)).report.facts ∧
    List.Forall₂ (fun u m => ∃ e, extract u = .ok e ∧ e.facts = m) (parsable units)
      (analyze root files units).report.facts.modules ∧
    (analyze root files units).report.summaries =
      (analyze root files (parsable units)).report.summaries ∧
    (analyze root files units).report.diagnostics =
      { (analyze root files (parsable units)).report.diagnostics with
        unitsFailed := (analyze root files units).report.diagnostics.unitsFailed } ∧
    List.Forall₂ Records (unparsable units) (analyze root files units).report.failures ∧
    (analyze root files units).report.diagnostics.unitsAnalyzed +
      (analyze root files units).report.diagnostics.unitsFailed = units.length ∧
    (analyze root files units).report.diagnostics.unitsFailed =
      (analyze root files units).report.failures.length := by
  have hparsed : parsed (parsable units) = parsed units := parsed_parsable units
  have hfacts : (analyze root files units).report.facts =
      (analyze root files (parsable units)).report.facts := by
    rw [facts_analyze, facts_analyze, hparsed]
  have hmodules : (analyze root files units).report.facts.modules =
      (parsed units).map (·.facts) := by
    rw [facts_analyze]
    rfl
  have hwhole := diagnostics_analyze root files units
  have hclean := diagnostics_analyze root files (parsable units)
  rw [hparsed] at hclean
  refine ⟨?_, ?_, hfacts, ?_, ?_, ?_, ?_, ?_, ?_⟩
  · rw [symbols_analyze, symbols_analyze, hparsed]
  · rw [graph_analyze, graph_analyze, hparsed]
  · rw [hmodules, List.forall₂_map_right_iff]
    exact (forall₂_extract_parsed units).imp fun u e he => ⟨e, he, rfl⟩
  · rw [summaries_analyze, summaries_analyze, hfacts]
  · rw [hwhole, hclean]
  · rw [failures_analyze]
    exact forall₂_records_failed units
  · rw [hwhole]
    exact length_parsed_add_length_failed units
  · rw [hwhole, failures_analyze]

end CodeAtlas
