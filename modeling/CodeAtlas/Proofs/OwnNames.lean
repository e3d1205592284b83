import CodeAtlas.Proofs.Counts
import CodeAtlas.Proofs.Merge

/-!
# Own names come before the table

A module's own declarations are nodes before any call is taken in, so the table is asked
only about names that the module does not declare (`AgreeOutside.resolve?_eq`). With two
tables that say the same of those names the graph and the counts go through the same values
call by call, and the fragments are equal (`AgreeOutside.fragment_eq`).

The table of a module alone says nothing of other names, as the empty one, so the graph of a
module alone is its fragment against the empty table (`unitGraph_eq_fragment_empty`). Its
nodes are the declared names, each as its last declaration says (`label?_unitGraph`).
-/

namespace CodeAtlas.Graph

open CodeAtlas.Facts CallGraph

variable {table table' : SymbolTable} {facts : ModuleFacts} {g : CallGraph}

/-! ## Two tables -/

/-- Two tables say the same of every name that a module does not declare. -/
def AgreeOutside (facts : ModuleFacts) (table table' : SymbolTable) : Prop :=
  ∀ name, (∀ d ∈ facts.declarations, d.name ≠ name) → table.get? name = table'.get? name

namespace AgreeOutside

/-- The table is asked about no name of the module. -/
theorem resolve?_eq (h : AgreeOutside facts table table') (hg : Growing table facts g)
    (name : String) : resolve? table g name = resolve? table' g name := by
  unfold resolve?
  split_ifs with hmem
  · rfl
  · rw [h name fun d hd hname => hmem (hg.contains_own (contains_declared.mpr ⟨d, hd, hname⟩))]

theorem addCall_eq (h : AgreeOutside facts table table') (hg : Growing table facts g)
    (counts : CallCounts) (call : CallSite × Option String) :
    addCall table (g, counts) call = addCall table' (g, counts) call := by
  simp only [addCall, h.resolve?_eq hg]

/-- A run of calls gives the same graph and the same counts. -/
theorem foldl_addCall_eq (h : AgreeOutside facts table table') (hg : Growing table facts g)
    (counts : CallCounts) {calls : List (CallSite × Option String)}
    (howner : ∀ call ∈ calls, ∀ owner, call.2 = some owner → (declared facts).contains owner) :
    calls.foldl (addCall table) (g, counts) = calls.foldl (addCall table') (g, counts) := by
  induction calls generalizing g counts with
  | nil => rfl
  | cons call calls ih =>
    have hfirst : ∀ c ∈ [call], ∀ owner, c.2 = some owner → (declared facts).contains owner :=
      fun c hc => howner c (by rw [List.mem_singleton.mp hc]; exact List.mem_cons_self)
    -- both runs go on from one graph, which still has all names of the module
    have hnext := (hg.foldl_addCall counts hfirst).1
    rw [List.foldl_cons, List.foldl_nil] at hnext
    rw [List.foldl_cons, List.foldl_cons, ← h.addCall_eq hg]
    exact ih hnext _ fun c hc => howner c (List.mem_cons_of_mem _ hc)

theorem fragment_eq (h : AgreeOutside facts table table') (sites : List CallSite) :
    fragment table facts sites = fragment table' facts sites :=
  h.foldl_addCall_eq (Growing.start table facts) _
    fun _ hcall _ howner => contains_declared_of_mem_ownedCalls hcall howner

end AgreeOutside

/-! ## A module alone -/

theorem SymbolTable.get?_empty (name : String) : (∅ : SymbolTable).get? name = none :=
  Std.ExtTreeMap.getElem?_empty

/-- The table of a module knows its names only. -/
theorem agreeOutside_ofModules (facts : ModuleFacts) :
    AgreeOutside facts (.ofModules [facts]) ∅ := by
  intro name hnone
  have hlast : lastNamed facts.declarations name = none := by
    rw [← Option.not_isSome_iff_eq_none, isSome_lastNamed]
    rintro ⟨d, hd, hname⟩
    exact hnone d hd hname
  rw [SymbolTable.get?_ofModules, List.flatMap_singleton, hlast, SymbolTable.get?_empty]
  rfl

theorem unitGraph_eq_fragment_empty (u : ExtractedUnit) :
    unitGraph u = (fragment ∅ u.facts u.sites).1 := by
  rw [unitGraph, (agreeOutside_ofModules u.facts).fragment_eq]

/-- A name of the module keeps the label of its last declaration, whatever the table. -/
theorem label?_fragment_of_lastNamed (table : SymbolTable) (sites : List CallSite)
    {name : String} {d : Declaration} (h : lastNamed facts.declarations name = some d) :
    (fragment table facts sites).1.label? name = some (.ofDeclaration d) := by
  refine (fragment_spec table facts sites).1.own ?_
  rw [label?_declared, h, Option.map_some]

/-- The nodes of a module alone are as its last declarations say. -/
theorem label?_unitGraph (u : ExtractedUnit) (name : String) :
    (unitGraph u).label? name = (lastNamed u.facts.declarations name).map .ofDeclaration := by
  rw [unitGraph_eq_fragment_empty, ← label?_declared]
  have hgrow := (fragment_spec ∅ u.facts u.sites).1
  cases hown : (declared u.facts).label? name with
  | some n => exact hgrow.own hown
  | none =>
    cases hn : (fragment ∅ u.facts u.sites).1.label? name with
    | none => rfl
    | some n =>
      have hforeign := hgrow.foreign hown hn
      rw [SymbolTable.label?, SymbolTable.get?_empty] at hforeign
      cases hforeign

theorem contains_unitGraph {u : ExtractedUnit} {name : String} :
    (unitGraph u).contains name ↔ ∃ d ∈ u.facts.declarations, d.name = name := by
  rw [contains_eq_isSome_label?, label?_unitGraph, Option.isSome_map, isSome_lastNamed]

/-- Tables that differ only on names of the module give the same graph and the same counts.
So the graph of a module alone is its fragment against the empty table; its nodes are the
names that the module declares. Against any table each of these names has the kind, the unit
and the line of its last declaration. -/
theorem own_names_shadow_table (facts : ModuleFacts) (sites : List CallSite) :
    (∀ table table' : SymbolTable, AgreeOutside facts table table' →
      fragment table facts sites = fragment table' facts sites) ∧
    unitGraph ⟨facts, sites⟩ = (fragment ∅ facts sites).1 ∧
    (∀ name, (unitGraph ⟨facts, sites⟩).contains name ↔ ∃ d ∈ facts.declarations, d.name = name) ∧
    ∀ (table : SymbolTable) (name : String) (d : Declaration),
      lastNamed facts.declarations name = some d →
        ∃ n, (fragment table facts sites).1.node? name = some n ∧
          n.kind = d.kind ∧ n.unit = d.unit ∧ n.line = d.startLine := by
  refine ⟨fun _ _ h => h.fragment_eq sites, unitGraph_eq_fragment_empty ⟨facts, sites⟩,
    fun _ => contains_unitGraph, fun table name d hd => ?_⟩
  exact exists_node?_of_label? (label?_fragment_of_lastNamed table sites hd)

/-- A module that declares a name twice. -/
def twiceDeclared : ModuleFacts :=
  { module := "m", path := "m.py", imports := [], classes := []
    functions := [⟨"f", "()", [], false, 1, 2⟩, ⟨"f", "(a)", [], false, 5, 6⟩] }

/-- A table with two names of another module, of which one is declared on the given line. -/
def elsewhere (line : Nat) : SymbolTable :=
  let declaration (name : String) (line : Nat) : Declaration :=
    ⟨name, .function, some "()", [], "other", "other.py", line, line⟩
  ((∅ : SymbolTable).insert (declaration "g" 1)).insert (declaration "f" line)

/-- Whatever line the table has for the name of the module, its node has line 5, and a call of
the other name is an edge against both tables. -/
theorem own_names_shadow_table_twiceDeclared :
    let sites : List CallSite := [⟨"f", 2, false⟩, ⟨"g", 6, false⟩, ⟨"h", 6, false⟩]
    AgreeOutside twiceDeclared (elsewhere 7) (elsewhere 9) ∧
      (elsewhere 7).get? "f" ≠ (elsewhere 9).get? "f" ∧
      fragment (elsewhere 7) twiceDeclared sites = fragment (elsewhere 9) twiceDeclared sites ∧
      ∃ n, (fragment (elsewhere 7) twiceDeclared sites).1.node? "f" = some n ∧ n.line = 5 := by
  intro sites
  have hlast : lastNamed twiceDeclared.declarations "f" =
      some ⟨"f", .function, some "(a)", [], "m", "m.py", 5, 6⟩ := by
    rw [ModuleFacts.declarations, List.mergeSort_of_pairwise (by decide)]
    decide
  have hagree : AgreeOutside twiceDeclared (elsewhere 7) (elsewhere 9) := by
    intro name hname
    have hne : ¬"f" = name := hname _ (List.mem_reverse.mp (List.mem_of_find?_eq_some hlast))
    simp only [elsewhere, SymbolTable.get?_insert, if_neg hne]
  obtain ⟨hsame, -, -, hnode⟩ := own_names_shadow_table twiceDeclared sites
  obtain ⟨n, hn, -, -, hline⟩ := hnode (elsewhere 7) "f" _ hlast
  exact ⟨hagree, by decide, hsame _ _ hagree, n, hn, hline⟩

end CodeAtlas.Graph
