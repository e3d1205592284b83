import CodeAtlas.Graph.SymbolTable
import Mathlib.Data.List.Dedup
import Mathlib.Data.List.Perm.Basic

/-!
# The last declaration of a name

A table knows a name by the last declaration of it, over all modules in their order and
the declarations of each module in theirs (`get?_ofModules`). It has a name for each
different one that is declared (`size_ofModules`), and every other declaration replaces
one or is replaced (`size_add_collisions`). So without collisions no name is declared
twice (`nodup_names_of_collisions_eq_zero`).
-/

namespace CodeAtlas.Graph

open CodeAtlas.Facts

/-- The last declaration of a name in a list. -/
def lastNamed (ds : List Declaration) (name : String) : Option Declaration :=
  ds.reverse.find? fun d => d.name == name

theorem lastNamed_append (ds ds' : List Declaration) (name : String) :
    lastNamed (ds ++ ds') name = (lastNamed ds' name).or (lastNamed ds name) := by
  simp [lastNamed]

theorem isSome_lastNamed {ds : List Declaration} {name : String} :
    (lastNamed ds name).isSome ↔ ∃ d ∈ ds, d.name = name := by
  simp [lastNamed]

/-- Where no name is declared twice, the last declaration of a name is the only one. -/
theorem lastNamed_eq_some_iff {ds : List Declaration} (h : (ds.map (·.name)).Nodup)
    {name : String} {d : Declaration} : lastNamed ds name = some d ↔ d ∈ ds ∧ d.name = name := by
  constructor
  · intro hd
    have hmem : d ∈ ds.reverse := List.mem_of_find?_eq_some hd
    exact ⟨List.mem_reverse.mp hmem, by simpa using List.find?_some hd⟩
  · rintro ⟨hd, hname⟩
    obtain ⟨last, hlast⟩ := Option.isSome_iff_exists.mp (isSome_lastNamed.mpr ⟨d, hd, hname⟩)
    have hmem : last ∈ ds.reverse := List.mem_of_find?_eq_some hlast
    have hname' : last.name = name := by simpa using List.find?_some hlast
    rw [hlast, List.inj_on_of_nodup_map h (List.mem_reverse.mp hmem) hd (hname'.trans hname.symm)]

/-- Then it does not depend on the order. -/
theorem lastNamed_perm {ds ds' : List Declaration} (hperm : ds.Perm ds')
    (h : (ds.map (·.name)).Nodup) (name : String) : lastNamed ds name = lastNamed ds' name := by
  have h' : (ds'.map (·.name)).Nodup := (hperm.map _).nodup_iff.mp h
  refine Option.ext fun d => ?_
  rw [lastNamed_eq_some_iff h, lastNamed_eq_some_iff h', hperm.mem_iff]

namespace SymbolTable

theorem contains_eq_isSome (t : SymbolTable) (name : String) :
    t.contains name = (t.get? name).isSome := by
  simp [contains, get?]

theorem get?_insert (t : SymbolTable) (d : Declaration) (name : String) :
    (t.insert d).get? name = if d.name = name then some (.ofDeclaration d) else t.get? name := by
  simp only [insert, get?, Std.ExtTreeMap.getElem?_insert, Std.LawfulEqCmp.compare_eq_iff_eq]

theorem get?_foldl_insert (t : SymbolTable) (ds : List Declaration) (name : String) :
    (ds.foldl insert t).get? name =
      ((lastNamed ds name).map .ofDeclaration).or (t.get? name) := by
  induction ds generalizing t with
  | nil => rfl
  | cons d ds ih =>
    rw [List.foldl_cons, ih, get?_insert, ← List.singleton_append, lastNamed_append,
      Option.map_or, Option.or_assoc]
    congr 1
    by_cases h : d.name = name <;> simp [lastNamed, h]

/-- The declarations of the modules are entered one after the other. -/
theorem ofModules_eq_foldl (ms : List ModuleFacts) :
    ofModules ms = (ms.flatMap (·.declarations)).foldl insert empty := by
  rw [List.foldl_flatMap]
  rfl

theorem get?_ofModules (ms : List ModuleFacts) (name : String) :
    (ofModules ms).get? name =
      (lastNamed (ms.flatMap (·.declarations)) name).map .ofDeclaration := by
  have hempty : empty.get? name = none := Std.ExtTreeMap.getElem?_empty
  rw [ofModules_eq_foldl, get?_foldl_insert, hempty, Option.or_none]

/-- A table of modules knows the names that one of them declares. -/
theorem contains_ofModules {ms : List ModuleFacts} {name : String} :
    (ofModules ms).contains name ↔ ∃ m ∈ ms, ∃ d ∈ m.declarations, d.name = name := by
  rw [contains_eq_isSome, get?_ofModules, Option.isSome_map, isSome_lastNamed]
  simp only [List.mem_flatMap]
  constructor
  · rintro ⟨d, ⟨m, hm, hd⟩, hname⟩
    exact ⟨m, hm, d, hd, hname⟩
  · rintro ⟨m, hm, d, hd, hname⟩
    exact ⟨d, ⟨m, hm, hd⟩, hname⟩

/-! ## Collisions -/

theorem size_insert (t : SymbolTable) (d : Declaration) :
    (t.insert d).size = if t.contains d.name then t.size else t.size + 1 :=
  Std.ExtTreeMap.size_insert

theorem collisions_insert (t : SymbolTable) (d : Declaration) : (t.insert d).collisions =
    if t.contains d.name then t.collisions + 1 else t.collisions :=
  rfl

/-- A declaration is a new name or a collision. -/
theorem size_add_collisions_insert (t : SymbolTable) (d : Declaration) :
    (t.insert d).size + (t.insert d).collisions = t.size + t.collisions + 1 := by
  rw [size_insert, collisions_insert]
  split_ifs <;> omega

theorem size_add_collisions_foldl_insert (t : SymbolTable) (ds : List Declaration) :
    (ds.foldl insert t).size + (ds.foldl insert t).collisions =
      t.size + t.collisions + ds.length := by
  induction ds generalizing t with
  | nil => rfl
  | cons d ds ih =>
    rw [List.foldl_cons, ih, size_add_collisions_insert, List.length_cons]
    omega

theorem size_add_collisions (ms : List ModuleFacts) :
    (ofModules ms).size + (ofModules ms).collisions = (ms.flatMap (·.declarations)).length := by
  have hempty : empty.size + empty.collisions = 0 := rfl
  rw [ofModules_eq_foldl, size_add_collisions_foldl_insert, hempty, Nat.zero_add]

/-- The names that some modules declare, one for each declaration. -/
def declaredNames (ms : List ModuleFacts) : List String :=
  (ms.flatMap (·.declarations)).map (·.name)

theorem length_declaredNames (ms : List ModuleFacts) :
    (declaredNames ms).length = (ms.flatMap (·.declarations)).length :=
  List.length_map ..

theorem contains_iff_mem_declaredNames {ms : List ModuleFacts} {name : String} :
    (ofModules ms).contains name ↔ name ∈ declaredNames ms := by
  rw [contains_ofModules, declaredNames, List.mem_map]
  constructor
  · rintro ⟨m, hm, d, hd, hname⟩
    exact ⟨d, List.mem_flatMap.mpr ⟨m, hm, hd⟩, hname⟩
  · rintro ⟨d, hd, hname⟩
    obtain ⟨m, hm, hd⟩ := List.mem_flatMap.mp hd
    exact ⟨m, hm, d, hd, hname⟩

/-- A table has the different names among the declared ones. -/
theorem size_ofModules (ms : List ModuleFacts) :
    (ofModules ms).size = (declaredNames ms).dedup.length := by
  have hkeys : (ofModules ms).entries.keys.Perm (declaredNames ms).dedup := by
    rw [List.perm_ext_iff_of_nodup Std.ExtTreeMap.nodup_keys (List.nodup_dedup _)]
    intro name
    rw [Std.ExtTreeMap.mem_keys, List.mem_dedup, ← contains_iff_mem_declaredNames]
    exact Std.ExtTreeMap.contains_iff_mem.symm
  rw [← hkeys.length_eq, Std.ExtTreeMap.length_keys]
  rfl

theorem nodup_names_of_collisions_eq_zero {ms : List ModuleFacts}
    (h : (ofModules ms).collisions = 0) : (declaredNames ms).Nodup := by
  have hcount := size_add_collisions ms
  rw [h, Nat.add_zero, size_ofModules, ← length_declaredNames] at hcount
  exact List.dedup_eq_self.mp ((List.dedup_sublist _).eq_of_length hcount)

end SymbolTable

end CodeAtlas.Graph
