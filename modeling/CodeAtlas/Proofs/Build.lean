import CodeAtlas.Graph.Build
import CodeAtlas.Proofs.Attribution
import CodeAtlas.Proofs.CallGraph
import CodeAtlas.Proofs.SymbolTable
import Mathlib.Data.List.Induction

/-!
# What a built graph holds

The graph of a module starts from its declarations and takes in its calls one by one.
`addCall_cases` says all that a call can do : nothing, if no declaration is around it or
nobody knows its callee, or else it resolves the callee and adds an edge, which is never
refused. On the way the labels of the module's own names stay and every other label is
that of the table (`Growing`), so whether a call becomes an edge does not depend on the
calls before it (`edges_fragment`).

Merged over all modules, with the table of all modules, the edges are those of the calls
of each module in turn (`edges_callGraph`), and the labels are those of the table
(`label?_callGraph_ofModules`).
-/

namespace CodeAtlas.Graph

open CodeAtlas.Facts CallGraph

variable {table : SymbolTable} {facts : ModuleFacts} {g : CallGraph}

/-! ## The declarations of a module -/

theorem consistent_declared (facts : ModuleFacts) : (declared facts).Consistent := by
  rw [declared, ← List.foldl_map]
  exact Consistent.empty.foldl_addNode _

theorem edges_declared (facts : ModuleFacts) : (declared facts).edges = [] := by
  rw [declared, ← List.foldl_map, edges_foldl_addNode, edges_empty]

theorem label?_declared (facts : ModuleFacts) (name : String) :
    (declared facts).label? name = (lastNamed facts.declarations name).map .ofDeclaration := by
  rw [declared, ← List.foldl_map, label?_foldl_addNode Consistent.empty, label?_empty,
    Option.or_none, ← List.map_reverse, List.find?_map, Option.map_map]
  rfl

theorem contains_declared {name : String} :
    (declared facts).contains name ↔ ∃ d ∈ facts.declarations, d.name = name := by
  rw [contains_eq_isSome_label?, label?_declared, Option.isSome_map, isSome_lastNamed]

/-! ## A graph that takes in calls -/

/-- Whether the module declares a name or the table knows it. -/
def knows (table : SymbolTable) (facts : ModuleFacts) (name : String) : Bool :=
  (declared facts).contains name || table.contains name

/-- The label a table gives to a name. -/
def SymbolTable.label? (table : SymbolTable) (name : String) : Option CallNode :=
  (table.get? name).map fun e => e.toNode name

@[simp] theorem SymbolEntry.id_toNode (name : String) (e : SymbolEntry) :
    (e.toNode name).id = name :=
  rfl

/-- A graph on the way from the declarations of a module to its fragment : the names
declared by the module have their labels, all others those of the table. -/
structure Growing (table : SymbolTable) (facts : ModuleFacts) (g : CallGraph) : Prop where
  consistent : g.Consistent
  own : ∀ {name n}, (declared facts).label? name = some n → g.label? name = some n
  foreign : ∀ {name n}, (declared facts).label? name = none → g.label? name = some n →
    table.label? name = some n

namespace Growing

theorem start (table : SymbolTable) (facts : ModuleFacts) :
    Growing table facts (declared facts) where
  consistent := consistent_declared facts
  own h := h
  foreign hnone hsome := by simp [hnone] at hsome

theorem contains_own (h : Growing table facts g) {name : String}
    (hown : (declared facts).contains name) : g.contains name := by
  rw [contains_eq_isSome_label?] at hown ⊢
  obtain ⟨n, hn⟩ := Option.isSome_iff_exists.mp hown
  rw [h.own hn, Option.isSome_some]

theorem knows_of_contains (h : Growing table facts g) {name : String} (hmem : g.contains name) :
    knows table facts name := by
  rw [contains_eq_isSome_label?] at hmem
  obtain ⟨n, hn⟩ := Option.isSome_iff_exists.mp hmem
  rw [knows, contains_eq_isSome_label?, SymbolTable.contains_eq_isSome, Bool.or_eq_true]
  cases hown : (declared facts).label? name with
  | some _ => exact Or.inl rfl
  | none =>
    refine Or.inr ?_
    obtain ⟨e, he, -⟩ := Option.map_eq_some_iff.mp (h.foreign hown hn)
    rw [he, Option.isSome_some]

theorem addNode (h : Growing table facts g) {name : String} {e : SymbolEntry}
    (hnew : g.contains name = false) (he : table.get? name = some e) :
    Growing table facts (g.addNode (e.toNode name)) where
  consistent := h.consistent.addNode _
  own {other n} hn := by
    have hother := h.own hn
    rw [label?_addNode h.consistent, if_neg, hother]
    rintro rfl
    simp [contains_eq_isSome_label?, show g.label? name = some n from hother] at hnew
  foreign {other n} hnone hn := by
    rw [label?_addNode h.consistent] at hn
    split_ifs at hn with hname
    · obtain rfl : name = other := hname
      rw [SymbolTable.label?, he]
      exact hn
    · exact h.foreign hnone hn

theorem connect (h : Growing table facts g) {a b : String} (ha : g.contains a)
    (hb : g.contains b) : Growing table facts (g.connect a b) where
  consistent := h.consistent.connect ha hb
  own hn := by rw [label?_connect, h.own hn]
  foreign hnone hn := h.foreign hnone (by rwa [label?_connect] at hn)

/-- A name is resolved exactly if it is known. -/
theorem resolve?_eq_none_iff (h : Growing table facts g) {name : String} :
    resolve? table g name = none ↔ knows table facts name = false := by
  unfold resolve?
  split_ifs with hmem
  · simp [h.knows_of_contains hmem]
  · have hown : (declared facts).contains name = false :=
      Bool.eq_false_iff.mpr fun hd => hmem (h.contains_own hd)
    rw [knows, hown, Bool.false_or, SymbolTable.contains_eq_isSome, Option.map_eq_none_iff]
    simp

/-- Resolving a name makes it a node and adds no edge. -/
theorem of_resolve? (h : Growing table facts g) {name : String} {g' : CallGraph}
    (hg' : resolve? table g name = some g') :
    Growing table facts g' ∧ g'.contains name ∧ g'.edges = g.edges := by
  unfold resolve? at hg'
  split_ifs at hg' with hmem
  · obtain rfl := Option.some.inj hg'
    exact ⟨h, hmem, rfl⟩
  · obtain ⟨e, he, rfl⟩ := Option.map_eq_some_iff.mp hg'
    refine ⟨h.addNode (Bool.eq_false_iff.mpr hmem) he, ?_, rfl⟩
    rw [contains_eq_isSome_label?, label?_addNode h.consistent,
      if_pos (SymbolEntry.id_toNode name e), Option.isSome_some]

/-- All that a call can do, if its owner is declared by the module. -/
theorem addCall_cases (h : Growing table facts g) (counts : CallCounts)
    {call : CallSite × Option String}
    (howner : ∀ owner, call.2 = some owner → (declared facts).contains owner) :
    (call.2 = none ∧ addCall table (g, counts) call =
      (g, { counts with unattributed := counts.unattributed + 1 })) ∨
    (∃ owner, call.2 = some owner ∧ knows table facts call.1.callee = false ∧
      addCall table (g, counts) call = (g, { counts with unresolved := counts.unresolved + 1 })) ∨
    ∃ owner g', call.2 = some owner ∧ knows table facts call.1.callee ∧
      Growing table facts g' ∧ g'.edges = g.edges ++ [⟨owner, call.1.callee⟩] ∧
      addCall table (g, counts) call = (g', { counts with edges := counts.edges + 1 }) := by
  obtain ⟨site, owner⟩ := call
  cases owner with
  | none => exact Or.inl ⟨rfl, rfl⟩
  | some owner =>
    refine Or.inr ?_
    cases hres : resolve? table g site.callee with
    | none =>
      refine Or.inl ⟨owner, rfl, h.resolve?_eq_none_iff.mp hres, ?_⟩
      simp [addCall, hres]
    | some g' =>
      obtain ⟨hg', hcallee, hedges⟩ := h.of_resolve? hres
      have hcaller : g'.contains owner := hg'.contains_own (howner owner rfl)
      refine Or.inr ⟨owner, g'.connect owner site.callee, rfl, ?_, hg'.connect hcaller hcallee,
        by rw [edges_connect, hedges], ?_⟩
      · exact hg'.knows_of_contains hcallee
      · simp [addCall, hres, addEdge?_of_contains hcaller hcallee]

end Growing

/-- The edge of a call with its owner, if the callee is known. -/
def ownedEdge? (known : String → Bool) (call : CallSite × Option String) : Option CallEdge :=
  if known call.1.callee then call.2.map fun owner => ⟨owner, call.1.callee⟩ else none

/-- A run of calls adds the edges of those that are resolved, in their order. -/
theorem Growing.foldl_addCall (h : Growing table facts g) (counts : CallCounts)
    {calls : List (CallSite × Option String)}
    (howner : ∀ call ∈ calls, ∀ owner, call.2 = some owner → (declared facts).contains owner) :
    Growing table facts (calls.foldl (addCall table) (g, counts)).1 ∧
      (calls.foldl (addCall table) (g, counts)).1.edges =
        g.edges ++ calls.filterMap (ownedEdge? (knows table facts)) := by
  induction calls generalizing g counts with
  | nil => exact ⟨h, by simp⟩
  | cons call calls ih =>
    have hrest : ∀ call ∈ calls, ∀ owner, call.2 = some owner → (declared facts).contains owner :=
      fun c hc => howner c (by simp [hc])
    rw [List.foldl_cons]
    rcases h.addCall_cases counts (howner call (by simp)) with
      ⟨hnone, heq⟩ | ⟨owner, hsome, hknows, heq⟩ | ⟨owner, g', hsome, hknows, hg', hedges, heq⟩
    · have hedge : ownedEdge? (knows table facts) call = none := by simp [ownedEdge?, hnone]
      rw [heq, List.filterMap_cons_none hedge]
      exact ih h _ hrest
    · have hedge : ownedEdge? (knows table facts) call = none := by simp [ownedEdge?, hknows]
      rw [heq, List.filterMap_cons_none hedge]
      exact ih h _ hrest
    · have hedge : ownedEdge? (knows table facts) call = some ⟨owner, call.1.callee⟩ := by
        simp [ownedEdge?, hknows, hsome]
      rw [heq, List.filterMap_cons_some hedge, List.append_cons, ← hedges]
      exact ih hg' _ hrest

/-! ## The graph of a module -/

/-- The owner of a call is the nearest declaration around its line. -/
theorem ownedCalls_eq_map (facts : ModuleFacts) (sites : List CallSite) :
    ownedCalls facts sites =
      sites.map fun s => (s, (nearest? facts.declarations s.line).map (·.1.name)) := by
  have howner : ∀ line, ((nearest? facts.declarations line).map (·.2)).bind
      (fun i => facts.declarations[i]?.map (·.name)) =
        (nearest? facts.declarations line).map (·.1.name) := by
    intro line
    cases h : nearest? facts.declarations line with
    | none => rfl
    | some d => simp [(mem_around.mp (nearest?_eq_some_iff.mp h).1).1]
  simp only [ownedCalls, lineOwners_eq_map, List.map_map]
  rw [← List.map_prod_left_eq_zip]
  simp [howner]

/-- The owner of a call is declared by the module. -/
theorem contains_declared_of_mem_ownedCalls {sites : List CallSite}
    {call : CallSite × Option String} (hcall : call ∈ ownedCalls facts sites) {owner : String}
    (howner : call.2 = some owner) : (declared facts).contains owner := by
  rw [ownedCalls_eq_map] at hcall
  obtain ⟨s, -, rfl⟩ := List.mem_map.mp hcall
  obtain ⟨d, hd, rfl⟩ := Option.map_eq_some_iff.mp howner
  have hplace := (mem_around.mp (nearest?_eq_some_iff.mp hd).1).1
  exact contains_declared.mpr ⟨d.1, List.mem_of_getElem? hplace, rfl⟩

/-- A fragment comes from the declarations of its module by taking in the calls. -/
theorem fragment_spec (table : SymbolTable) (facts : ModuleFacts) (sites : List CallSite) :
    Growing table facts (fragment table facts sites).1 ∧
      (fragment table facts sites).1.edges =
        (ownedCalls facts sites).filterMap (ownedEdge? (knows table facts)) := by
  have h := (Growing.start table facts).foldl_addCall { units := 1, callSites := sites.length }
    (fun _ hcall _ howner => contains_declared_of_mem_ownedCalls hcall howner :
      ∀ call ∈ ownedCalls facts sites, _)
  rwa [edges_declared, List.nil_append] at h

/-- The edge of a call of a module : from the nearest declaration around it, if there is
one and the callee is known. -/
def siteEdge? (known : String → Bool) (facts : ModuleFacts) (s : CallSite) : Option CallEdge :=
  if known s.callee then
    (nearest? facts.declarations s.line).map fun d => ⟨d.1.name, s.callee⟩
  else none

/-- The edges of a fragment are those of its calls, in their order. -/
theorem edges_fragment (table : SymbolTable) (facts : ModuleFacts) (sites : List CallSite) :
    (fragment table facts sites).1.edges =
      sites.filterMap (siteEdge? (knows table facts) facts) := by
  rw [(fragment_spec table facts sites).2, ownedCalls_eq_map, List.filterMap_map]
  refine congrArg (fun f => sites.filterMap f) (funext fun s => ?_)
  simp [ownedEdge?, siteEdge?, Function.comp_def]

/-! ## The graph of several modules -/

theorem callGraph_concat (table : SymbolTable) (us : List ExtractedUnit) (u : ExtractedUnit) :
    (callGraph table (us ++ [u])).1 =
      (callGraph table us).1.merge (fragment table u.facts u.sites).1 := by
  simp [callGraph]

theorem consistent_callGraph (table : SymbolTable) (us : List ExtractedUnit) :
    (callGraph table us).1.Consistent := by
  induction us using List.reverseRecOn with
  | nil => exact Consistent.empty
  | append_singleton us u ih =>
    rw [callGraph_concat]
    exact ih.merge _

/-- The edges are those of the calls of each module in turn. -/
theorem edges_callGraph (table : SymbolTable) (us : List ExtractedUnit) :
    (callGraph table us).1.edges =
      us.flatMap fun u => u.sites.filterMap (siteEdge? (knows table u.facts) u.facts) := by
  induction us using List.reverseRecOn with
  | nil => rfl
  | append_singleton us u ih =>
    rw [callGraph_concat, edges_merge (consistent_callGraph table us)
      (fragment_spec table u.facts u.sites).1.consistent, ih, edges_fragment,
      List.flatMap_append, List.flatMap_singleton]

/-- A name has the label of the table, or that of its last declaration so far. -/
theorem label?_callGraph (table : SymbolTable) (us : List ExtractedUnit) (name : String) :
    (callGraph table us).1.label? name = table.label? name ∨
      (callGraph table us).1.label? name =
        (lastNamed (us.flatMap (·.facts.declarations)) name).map .ofDeclaration := by
  induction us using List.reverseRecOn with
  | nil => exact Or.inr rfl
  | append_singleton us u ih =>
    have hfrag := (fragment_spec table u.facts u.sites).1
    rw [callGraph_concat, label?_merge (consistent_callGraph table us) hfrag.consistent,
      List.flatMap_append, List.flatMap_singleton, lastNamed_append, Option.map_or,
      ← label?_declared]
    -- the last fragment decides : by a declaration of its own, by the table, or not at all
    cases hown : (declared u.facts).label? name with
    | some n => exact Or.inr (by rw [hfrag.own hown]; rfl)
    | none =>
      cases hn : (fragment table u.facts u.sites).1.label? name with
      | none => exact ih
      | some n => exact Or.inl (hfrag.foreign hown hn).symm

theorem label?_callGraph_ofModules (us : List ExtractedUnit) (name : String) :
    (callGraph (.ofModules (us.map (·.facts))) us).1.label? name =
      (SymbolTable.ofModules (us.map (·.facts))).label? name := by
  have hlast : (SymbolTable.ofModules (us.map (·.facts))).label? name =
      (lastNamed (us.flatMap (·.facts.declarations)) name).map .ofDeclaration := by
    rw [SymbolTable.label?, SymbolTable.get?_ofModules, List.flatMap_map, Option.map_map]
    cases h : lastNamed (us.flatMap (·.facts.declarations)) name with
    | none => rfl
    | some d =>
      have hname : d.name = name := by simpa using List.find?_some h
      simp [SymbolEntry.toNode, SymbolEntry.ofDeclaration, CallNode.ofDeclaration, hname]
  rcases label?_callGraph (.ofModules (us.map (·.facts))) us name with h | h
  · exact h
  · rw [h, hlast]

/-! ## Modules with their own table -/

/-- Whether one of some modules declares a name. -/
def declares (us : List ExtractedUnit) (name : String) : Bool :=
  us.any fun u => u.facts.declarations.any fun d => d.name == name

theorem declares_iff {us : List ExtractedUnit} {name : String} :
    declares us name ↔ ∃ u ∈ us, ∃ d ∈ u.facts.declarations, d.name = name := by
  simp [declares]

theorem knows_ofModules {us : List ExtractedUnit} {u : ExtractedUnit} (hu : u ∈ us)
    (name : String) : knows (.ofModules (us.map (·.facts))) u.facts name = declares us name := by
  rw [Bool.eq_iff_iff, knows, Bool.or_eq_true, contains_declared,
    SymbolTable.contains_ofModules, declares_iff]
  simp only [List.mem_map, exists_exists_and_eq_and]
  constructor
  · rintro (h | h)
    · exact ⟨u, hu, h⟩
    · exact h
  · exact Or.inr

theorem siteEdge?_eq_none_iff {known : String → Bool} {s : CallSite} :
    siteEdge? known facts s = none ↔
      around facts.declarations s.line = [] ∨ known s.callee = false := by
  rw [← nearest?_eq_none_iff]
  cases h : known s.callee <;> simp [siteEdge?, h]

theorem siteEdge?_eq_some_iff {known : String → Bool} {s : CallSite} {e : CallEdge} :
    siteEdge? known facts s = some e ↔ known s.callee ∧
      ∃ owner ∈ around facts.declarations s.line,
        (∀ other ∈ around facts.declarations s.line, owner.Nearer other) ∧
        ⟨owner.1.name, s.callee⟩ = e := by
  cases h : known s.callee with
  | false => simp [siteEdge?, h]
  | true =>
    simp only [siteEdge?, h, if_true, Option.map_eq_some_iff, nearest?_eq_some_iff, true_and,
      and_assoc]

/-- The edges of the merged graph are, module by module and call by call, those of the
calls that some function or method of the module contains and whose callee some module
declares : each goes from the nearest declaration around the call. -/
theorem edges_callGraph_ofModules (us : List ExtractedUnit) :
    (callGraph (.ofModules (us.map (·.facts))) us).1.edges =
        us.flatMap (fun u => u.sites.filterMap (siteEdge? (declares us) u.facts)) ∧
      ∀ (u : ExtractedUnit) (s : CallSite),
        (siteEdge? (declares us) u.facts s = none ↔ around u.facts.declarations s.line = [] ∨
          ¬∃ v ∈ us, ∃ d ∈ v.facts.declarations, d.name = s.callee) ∧
        ∀ e, siteEdge? (declares us) u.facts s = some e →
          ∃ owner ∈ around u.facts.declarations s.line,
            (∀ other ∈ around u.facts.declarations s.line, owner.Nearer other) ∧
            ⟨owner.1.name, s.callee⟩ = e := by
  refine ⟨?_, fun u s => ⟨?_, fun e he => (siteEdge?_eq_some_iff.mp he).2⟩⟩
  · rw [edges_callGraph]
    refine List.flatMap_congr fun u hu => ?_
    rw [funext (knows_ofModules hu)]
  · rw [siteEdge?_eq_none_iff, ← declares_iff, Bool.not_eq_true]

/-- The merged graph and the table of the modules know the same names, and as the same :
the node of a name has the kind, the unit and the line of its entry. -/
theorem callGraph_agrees_with_table (us : List ExtractedUnit) :
    let table := SymbolTable.ofModules (us.map (·.facts))
    let g := (callGraph table us).1
    (∀ name, g.contains name = table.contains name) ∧
      ∀ name e, table.get? name = some e → ∃ n, g.node? name = some n ∧
        n.kind = e.kind ∧ n.unit = e.unit ∧ n.line = e.startLine := by
  intro table g
  have hlabel : ∀ name, g.label? name = table.label? name := label?_callGraph_ofModules us
  refine ⟨fun name => ?_, fun name e he => ?_⟩
  · rw [contains_eq_isSome_label?, hlabel, SymbolTable.label?, Option.isSome_map,
      SymbolTable.contains_eq_isSome]
  · have hnode := hlabel name
    rw [SymbolTable.label?, he] at hnode
    obtain ⟨n, hn, hbare⟩ := Option.map_eq_some_iff.mp hnode
    exact ⟨n, hn, congrArg CallNode.kind hbare, congrArg CallNode.unit hbare,
      congrArg CallNode.line hbare⟩

end CodeAtlas.Graph
