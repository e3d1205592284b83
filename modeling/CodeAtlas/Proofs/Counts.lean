import CodeAtlas.Proofs.Analysis
import CodeAtlas.Proofs.Build

/-!
# Every call is counted once

A call of a module is outside every function and method, or its callee is unknown, or it
is an edge. The counts of a fragment say how many calls there are of each sort
(`counts_fragment`) : no edge is refused on the way, so no call is left out. Counts add
up as graphs are merged, and in a merge no edge is refused either, so the counts of a
whole analysis balance as well (`calls_all_counted`).
-/

namespace CodeAtlas.Graph

open CodeAtlas.Facts CodeAtlas.Source CallGraph

variable {table : SymbolTable} {facts : ModuleFacts} {g : CallGraph}

/-! ## The three sorts of calls -/

/-- Whether no function or method of a module contains a call. -/
def outside (facts : ModuleFacts) (s : CallSite) : Bool :=
  facts.declarations.all fun d => !(d.kind.isCallable && d.containsLine s.line)

/-- The calls of some modules that no function or method contains. -/
def outsideCalls (us : List ExtractedUnit) : List CallSite :=
  us.flatMap fun u => u.sites.filter (outside u.facts)

theorem outside_iff_around {s : CallSite} :
    outside facts s ↔ around facts.declarations s.line = [] := by
  rw [outside, List.all_eq_true, List.eq_nil_iff_forall_not_mem]
  constructor
  · intro hout d hd
    obtain ⟨hplace, hcallable, hline⟩ := mem_around.mp hd
    simpa [hcallable, hline] using hout d.1 (List.mem_of_getElem? hplace)
  · intro hnone d hd
    obtain ⟨i, hi⟩ := List.mem_iff_getElem?.mp hd
    have hplaced := hnone (d, i)
    rw [mem_around] at hplaced
    rw [Bool.not_eq_true', Bool.and_eq_false_imp]
    simpa [hi] using hplaced

theorem outside_eq_isNone_nearest? (facts : ModuleFacts) :
    outside facts = fun s => (nearest? facts.declarations s.line).isNone := by
  funext s
  rw [Bool.eq_iff_iff, outside_iff_around, ← nearest?_eq_none_iff, Option.isNone_iff_eq_none]

/-- The counts of a module, read off its calls. -/
def tally (known : String → Bool) (facts : ModuleFacts) (sites : List CallSite) : CallCounts :=
  { units := 1
    callSites := sites.length
    unattributed := sites.countP (outside facts)
    unresolved := sites.countP fun s => !outside facts s && !known s.callee
    edges := sites.countP fun s => !outside facts s && known s.callee }

/-- The three sorts exclude each other, and there is no fourth. -/
theorem callSites_tally (known : String → Bool) (facts : ModuleFacts) (sites : List CallSite) :
    (tally known facts sites).callSites = (tally known facts sites).unattributed +
      (tally known facts sites).unresolved + (tally known facts sites).edges := by
  simp only [tally]
  induction sites with
  | nil => rfl
  | cons s sites ih =>
    simp only [List.length_cons, List.countP_cons, ih]
    cases outside facts s <;> cases known s.callee <;> simp <;> omega

/-! ## The counts of a fragment -/

/-- A run of calls counts each of them, and never as a refused edge. -/
theorem Growing.counts_foldl_addCall (h : Growing table facts g) (counts : CallCounts)
    {calls : List (CallSite × Option String)}
    (howner : ∀ call ∈ calls, ∀ owner, call.2 = some owner → (declared facts).contains owner) :
    (calls.foldl (addCall table) (g, counts)).2 =
      { counts with
        unattributed := counts.unattributed + calls.countP (·.2.isNone)
        unresolved := counts.unresolved +
          calls.countP fun c => !c.2.isNone && !knows table facts c.1.callee
        edges := counts.edges +
          calls.countP fun c => !c.2.isNone && knows table facts c.1.callee } := by
  induction calls generalizing g counts with
  | nil => rfl
  | cons call calls ih =>
    have hrest : ∀ call ∈ calls, ∀ owner, call.2 = some owner → (declared facts).contains owner :=
      fun c hc => howner c (by simp [hc])
    rw [List.foldl_cons]
    rcases h.addCall_cases counts (howner call (by simp)) with
      ⟨hnone, heq⟩ | ⟨owner, hsome, hknows, heq⟩ | ⟨owner, g', hsome, hknows, hg', -, heq⟩
    · rw [heq, ih h _ hrest]
      simp [hnone]
      omega
    · rw [heq, ih h _ hrest]
      simp [hsome, hknows]
      omega
    · rw [heq, ih hg' _ hrest]
      simp [hsome, hknows]
      omega

/-- The counts of a fragment are those of its calls. -/
theorem counts_fragment (table : SymbolTable) (facts : ModuleFacts) (sites : List CallSite) :
    (fragment table facts sites).2 = tally (knows table facts) facts sites := by
  have h := (Growing.start table facts).counts_foldl_addCall
    { units := 1, callSites := sites.length }
    (fun _ hcall _ howner => contains_declared_of_mem_ownedCalls hcall howner :
      ∀ call ∈ ownedCalls facts sites, _)
  rw [fragment, h, ownedCalls_eq_map]
  simp [tally, List.countP_map, outside_eq_isNone_nearest?, Function.comp_def]

theorem isSome_siteEdge? (known : String → Bool) (facts : ModuleFacts) (s : CallSite) :
    (siteEdge? known facts s).isSome = (!outside facts s && known s.callee) := by
  rw [outside_eq_isNone_nearest?, siteEdge?]
  cases known s.callee <;> simp

/-- As many edges are counted as the fragment has. -/
theorem edgeCount_fragment (table : SymbolTable) (facts : ModuleFacts) (sites : List CallSite) :
    (fragment table facts sites).2.edges = (fragment table facts sites).1.edgeCount := by
  rw [counts_fragment, edgeCount, edges_fragment, List.length_filterMap_eq_countP]
  exact List.countP_congr fun s _ => by rw [isSome_siteEdge?]

/-- Once the callee of a call is resolved, its edge is taken. -/
theorem addEdge?_of_ownedCalls_eq {sites : List CallSite} (counts : CallCounts)
    {before after : List (CallSite × Option String)} {s : CallSite} {owner : String}
    (hcalls : ownedCalls facts sites = before ++ (s, some owner) :: after) {g' : CallGraph}
    (hg' : resolve? table (before.foldl (addCall table) (declared facts, counts)).1 s.callee =
      some g') :
    g'.addEdge? owner s.callee ≠ none := by
  have howner : ∀ call ∈ ownedCalls facts sites, ∀ o, call.2 = some o →
      (declared facts).contains o :=
    fun _ hcall _ ho => contains_declared_of_mem_ownedCalls hcall ho
  rw [hcalls] at howner
  have hbefore := ((Growing.start table facts).foldl_addCall counts
    (fun call hcall => howner call (List.mem_append_left _ hcall) : ∀ call ∈ before, _)).1
  obtain ⟨hgrow, hcallee, -⟩ := hbefore.of_resolve? hg'
  have hcaller := hgrow.contains_own (howner (s, some owner) (by simp) owner rfl)
  simp [addEdge?_of_contains hcaller hcallee]

/-! ## The counts of merged graphs -/

theorem counts_callGraph_concat (table : SymbolTable) (us : List ExtractedUnit)
    (u : ExtractedUnit) : (callGraph table (us ++ [u])).2 =
      (callGraph table us).2.add (fragment table u.facts u.sites).2 := by
  simp [callGraph]

/-- Counts that balance, for the graph of some modules. -/
structure Accounted (us : List ExtractedUnit) (g : CallGraph) (c : CallCounts) : Prop where
  callSites : c.callSites = (us.flatMap (·.sites)).length
  unattributed : c.unattributed = (outsideCalls us).length
  balance : c.callSites = c.unattributed + c.unresolved + c.edges
  edges : c.edges = g.edgeCount

theorem accounted_fragment (table : SymbolTable) (facts : ModuleFacts) (sites : List CallSite) :
    Accounted [⟨facts, sites⟩] (fragment table facts sites).1 (fragment table facts sites).2 where
  callSites := by simp [counts_fragment, tally]
  unattributed := by simp [counts_fragment, tally, outsideCalls, List.countP_eq_length_filter]
  balance := by rw [counts_fragment, callSites_tally]
  edges := edgeCount_fragment table facts sites

theorem Accounted.merge {us us' : List ExtractedUnit} {g g' : CallGraph} {c c' : CallCounts}
    (h : Accounted us g c) (h' : Accounted us' g' c') (hg : g.Consistent) (hg' : g'.Consistent) :
    Accounted (us ++ us') (g.merge g') (c.add c') where
  callSites := by simp only [CallCounts.add, h.callSites, h'.callSites, List.flatMap_append,
    List.length_append]
  unattributed := by simp only [CallCounts.add, h.unattributed, h'.unattributed, outsideCalls,
    List.flatMap_append, List.length_append]
  balance := by
    have := h.balance
    have := h'.balance
    simp only [CallCounts.add]
    omega
  edges := by simp only [CallCounts.add, h.edges, h'.edges, edgeCount, edges_merge hg hg',
    List.length_append]

theorem accounted_callGraph (table : SymbolTable) (us : List ExtractedUnit) :
    Accounted us (callGraph table us).1 (callGraph table us).2 := by
  induction us using List.reverseRecOn with
  | nil => exact ⟨rfl, rfl, rfl, rfl⟩
  | append_singleton us u ih =>
    rw [callGraph_concat, counts_callGraph_concat]
    exact ih.merge (accounted_fragment table u.facts u.sites) (consistent_callGraph table us)
      (fragment_spec table u.facts u.sites).1.consistent

/-- Every call is counted once : as one that no function or method contains, as one of an
unknown name, or as an edge of the graph. This holds of the fragment of a module against
any table, where no edge is refused, of the merged graph of several modules, and of the
counts that an analysis reports. -/
theorem calls_all_counted :
    (∀ (table : SymbolTable) (facts : ModuleFacts) (sites : List CallSite),
      let g := (fragment table facts sites).1
      let counts := (fragment table facts sites).2
      counts.callSites = sites.length ∧
      counts.unattributed = (sites.filter (outside facts)).length ∧
      counts.callSites = counts.unattributed + counts.unresolved + counts.edges ∧
      counts.edges = g.edgeCount ∧
      ∀ before s owner after, ownedCalls facts sites = before ++ (s, some owner) :: after →
        ∀ c g', resolve? table (before.foldl (addCall table) (declared facts, c)).1 s.callee =
          some g' → g'.addEdge? owner s.callee ≠ none) ∧
    (∀ (table : SymbolTable) (us : List ExtractedUnit),
      let g := (callGraph table us).1
      let counts := (callGraph table us).2
      counts.callSites = (us.flatMap (·.sites)).length ∧
      counts.unattributed = (outsideCalls us).length ∧
      counts.callSites = counts.unattributed + counts.unresolved + counts.edges ∧
      counts.edges = g.edgeCount) ∧
    ∀ (root : String) (files : List FileFacts) (units : List SourceUnit),
      let diagnostics := (analyze root files units).report.diagnostics
      diagnostics.callSites = ((parsed units).flatMap (·.sites)).length ∧
      diagnostics.callEdges + diagnostics.unresolvedCalls + (outsideCalls (parsed units)).length =
        diagnostics.callSites := by
  refine ⟨fun table facts sites => ?_, fun table us => ?_, fun root files units => ?_⟩
  · have h := accounted_fragment table facts sites
    refine ⟨by simpa using h.callSites, by simpa [outsideCalls] using h.unattributed, h.balance,
      h.edges, fun before s owner after hcalls c g' hg' => ?_⟩
    exact addEdge?_of_ownedCalls_eq c hcalls hg'
  · have h := accounted_callGraph table us
    exact ⟨h.callSites, h.unattributed, h.balance, h.edges⟩
  · have h := accounted_callGraph (.ofModules ((parsed units).map (·.facts))) (parsed units)
    rw [diagnostics_analyze]
    refine ⟨h.callSites, ?_⟩
    have hbalance := h.balance
    rw [h.unattributed, h.edges] at hbalance
    simp only
    omega

end CodeAtlas.Graph
