import CodeAtlas.Facts.Repository
import CodeAtlas.Proofs.Lists

/-!
# What packages hold

Modules are put into their packages one after the other. A package holds the modules that
bear its name before their last dot, in their order (`getElem?_packages`), and there is a
package for each such name and no other (`mem_keys_packages`).
-/

namespace CodeAtlas.Facts

/-- The modules of the package of a name, in their order. -/
def membersOf (ms : List ModuleFacts) (key : String) : List ModuleFacts :=
  ms.filter fun m => packageName m.module == key

variable {ms : List ModuleFacts} {m : ModuleFacts} {key : String}

theorem mem_membersOf : m ∈ membersOf ms key ↔ m ∈ ms ∧ packageName m.module = key := by
  simp [membersOf]

theorem membersOf_concat (ms : List ModuleFacts) (m : ModuleFacts) (key : String) :
    membersOf (ms ++ [m]) key =
      membersOf ms key ++ if packageName m.module = key then [m] else [] := by
  rw [membersOf, List.filter_append, ← membersOf]
  by_cases h : packageName m.module = key <;> simp [h]

/-- A package changes only when a module of it is added, at its end. -/
theorem getElem?_addToPackage (ps : Packages) (m : ModuleFacts) (key : String) :
    (addToPackage ps m)[key]? =
      if packageName m.module = key then
        some ((ps[key]?).elim ⟨key, [m]⟩ fun p => { p with modules := p.modules ++ [m] })
      else ps[key]? := by
  simp only [addToPackage, Std.ExtTreeMap.getElem?_insert, Std.LawfulEqCmp.compare_eq_iff_eq]
  split_ifs with h
  · subst h
    cases ps[packageName m.module]? <;> rfl
  · rfl

theorem packages_concat (ms : List ModuleFacts) (m : ModuleFacts) :
    packages (ms ++ [m]) = addToPackage (packages ms) m := by
  simp [packages]

/-- The package of a name holds its modules, and there is none without modules. -/
theorem getElem?_packages (ms : List ModuleFacts) (key : String) :
    (packages ms)[key]? =
      if membersOf ms key = [] then none else some ⟨key, membersOf ms key⟩ := by
  induction ms using List.reverseRecOn with
  | nil => simp [packages, membersOf]
  | append_singleton ms m ih =>
    rw [packages_concat, getElem?_addToPackage, ih, membersOf_concat]
    by_cases hkey : packageName m.module = key
    · by_cases hnone : membersOf ms key = [] <;> simp [hkey, hnone]
    · simp [hkey]

theorem mem_keys_packages : key ∈ (packages ms).keys ↔ ∃ m ∈ ms, packageName m.module = key := by
  rw [Std.ExtTreeMap.mem_keys, Std.ExtTreeMap.mem_iff_isSome_getElem?, getElem?_packages]
  constructor
  · intro h
    split_ifs at h with hnone
    · cases h
    · obtain ⟨m, hm⟩ := List.exists_mem_of_ne_nil _ hnone
      exact ⟨m, mem_membersOf.mp hm⟩
  · rintro ⟨m, hm⟩
    rw [if_neg (List.ne_nil_of_mem (mem_membersOf.mpr hm))]
    rfl

theorem toList_packages (ms : List ModuleFacts) :
    (packages ms).toList = (packages ms).keys.map fun key => (key, ⟨key, membersOf ms key⟩) := by
  rw [← Std.ExtTreeMap.map_fst_toList_eq_keys, List.map_map]
  refine (List.map_id _).symm.trans (List.map_congr_left fun e he => ?_)
  have hget : (packages ms)[e.1]? = some e.2 := Std.ExtTreeMap.mem_toList_iff_getElem?_eq_some.mp he
  rw [getElem?_packages] at hget
  split_ifs at hget
  exact Prod.ext rfl (Option.some.inj hget).symm

end CodeAtlas.Facts
