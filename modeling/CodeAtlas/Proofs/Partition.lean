import CodeAtlas.Proofs.Packages
import CodeAtlas.Proofs.Scan
import Mathlib.Algebra.GroupWithZero.Nat

/-!
# Packages partition the modules

Every module is in the package that its name says and in no other (`mem_package_iff`), as often
as it occurs, so the packages together hold the modules again in another order
(`flatMap_modules_perm`). Whatever is counted module by module adds up over the packages
(`sum_length_packages`).

A scan derives the package of a file on its own, before any module is put into a package. It
is the same one, a file without a package being under the empty name
(`package_of_mem_scan`).
-/

namespace CodeAtlas.Facts

open CodeAtlas.Tree

variable {ms : List ModuleFacts} {m : ModuleFacts} {key : String} {p : PackageFacts}

/-! ## Members -/

/-- A package is kept under its name and holds the modules of that name, of which there is at
least one. -/
theorem getElem?_packages_eq_some : (packages ms)[key]? = some p ↔
    p = ⟨key, membersOf ms key⟩ ∧ membersOf ms key ≠ [] := by
  rw [getElem?_packages]
  split_ifs with hnone
  · simp [hnone]
  · simp [hnone, eq_comm]

/-- A module is in the package that its name says and in no other. -/
theorem mem_package_iff (hm : m ∈ ms) :
    (∃ p, (packages ms)[key]? = some p ∧ m ∈ p.modules) ↔ key = packageName m.module := by
  simp only [getElem?_packages_eq_some]
  constructor
  · rintro ⟨p, ⟨rfl, -⟩, hmem⟩
    exact (mem_membersOf.mp hmem).2.symm
  · rintro rfl
    have hmem : m ∈ membersOf ms (packageName m.module) := mem_membersOf.mpr ⟨hm, rfl⟩
    exact ⟨_, ⟨rfl, List.ne_nil_of_mem hmem⟩, hmem⟩

/-- A module occurs in its package as often as at all. -/
theorem filter_beq_membersOf (ms : List ModuleFacts) (m : ModuleFacts) (key : String) :
    (membersOf ms key).filter (· == m) =
      if packageName m.module = key then ms.filter (· == m) else [] := by
  rw [membersOf, List.filter_filter]
  split_ifs with hkey
  · refine List.filter_congr fun m' _ => ?_
    by_cases h : m' = m
    · simp [h, hkey]
    · simp [h]
  · refine List.filter_eq_nil_iff.mpr fun m' _ hm' => ?_
    obtain ⟨heq, hkey'⟩ := Bool.and_eq_true_iff.mp hm'
    rw [beq_iff_eq.mp heq] at hkey'
    exact hkey (beq_iff_eq.mp hkey')

/-- The modules of all packages are the modules. -/
theorem flatMap_modules_perm (ms : List ModuleFacts) :
    ((packages ms).toList.flatMap (·.2.modules)).Perm ms := by
  rw [toList_packages, List.flatMap_map, List.perm_iff_count]
  intro m
  -- only the package of a module has anything to do with its occurrences
  have hother : ∀ key ∈ (packages ms).keys, key ≠ packageName m.module →
      (membersOf ms key).filter (· == m) = [] := by
    intro key _ hne
    rw [filter_beq_membersOf, if_neg hne.symm]
  rw [List.count_eq_length_filter, List.count_eq_length_filter, List.filter_flatMap,
    flatMap_eq_of_nodup Std.ExtTreeMap.nodup_keys _ hother, filter_beq_membersOf, if_pos rfl]
  split_ifs with hkey
  · rfl
  · have hnone : ms.filter (· == m) = [] := by
      refine List.filter_eq_nil_iff.mpr fun m' hm' heq => hkey (mem_keys_packages.mpr ⟨m', hm', ?_⟩)
      rw [beq_iff_eq.mp heq]
    rw [hnone]

/-- What each module has some of adds up over the packages. -/
theorem sum_length_packages {α : Type} (ms : List ModuleFacts) (f : ModuleFacts → List α) :
    ((packages ms).toList.map fun e => (e.2.modules.flatMap f).length).sum =
      (ms.map fun m => (f m).length).sum := by
  calc
    _ = (((packages ms).toList.flatMap (·.2.modules)).flatMap f).length := by
      rw [List.flatMap_assoc, List.length_flatMap]
    _ = (ms.flatMap f).length := ((flatMap_modules_perm ms).flatMap_right f).length_eq
    _ = _ := List.length_flatMap

/-! ## Files -/

/-- The package of a scanned file is that of its module. -/
theorem package_of_mem_scan {t : Tree} {s : ScanSettings} {place : Place} {f : ScannedFile}
    (hf : f ∈ t.scan s place) {name : String} (hname : f.module = some name) :
    f.package.getD "" = packageName name := by
  have hpackage : f.package = f.module.bind fun m => nonEmpty? (packageName m) := by
    obtain ⟨rel, size, changed, rfl⟩ := exists_describeFile_of_mem_scan hf
    simp only [describeFile]
  rw [hpackage, hname, Option.bind_some, nonEmpty?]
  split_ifs with hempty
  · rw [Option.getD_none, String.isEmpty_iff.mp hempty]
  · rfl

/-- Packages hold all modules, each once for each time it occurs and in their order, under the
names that the modules have before their last dots. None is empty, and what is counted in
modules is counted in packages. The package that a scan records for a file is the one its
module is put into. -/
theorem packages_partition (ms : List ModuleFacts) :
    ((packages ms).toList.flatMap (·.2.modules)).Perm ms ∧
    (∀ (key : String) (p : PackageFacts), (packages ms)[key]? = some p →
      p.package = key ∧ p.modules ≠ [] ∧ p.modules.Sublist ms ∧
        ∀ m ∈ p.modules, packageName m.module = key) ∧
    ((packages ms).toList.map (·.2.modules.length)).sum = ms.length ∧
    ((packages ms).toList.map (·.2.classCount)).sum = (ms.map (·.classes.length)).sum ∧
    ((packages ms).toList.map (·.2.functionCount)).sum = (ms.map (·.functions.length)).sum ∧
    ∀ (t : Tree) (s : ScanSettings) (place : Place), ∀ f ∈ t.scan s place, ∀ name,
      f.facts.module = some name →
        f.facts.package.getD "" = packageName name ∧
        ∀ m ∈ ms, m.module = name → ∀ key,
          (∃ p, (packages ms)[key]? = some p ∧ m ∈ p.modules) ↔ key = f.facts.package.getD "" := by
  refine ⟨flatMap_modules_perm ms, fun key p hp => ?_, ?_, sum_length_packages ms (·.classes),
    sum_length_packages ms (·.functions), fun t s place f hf name hname => ?_⟩
  · obtain ⟨rfl, hne⟩ := getElem?_packages_eq_some.mp hp
    exact ⟨rfl, hne, List.filter_sublist, fun m hm => (mem_membersOf.mp hm).2⟩
  · simpa using sum_length_packages ms fun m => [m]
  · have hpackage : f.facts.package.getD "" = packageName name := package_of_mem_scan hf hname
    refine ⟨hpackage, fun m hm hmodule key => ?_⟩
    rw [mem_package_iff hm, hmodule, hpackage]

end CodeAtlas.Facts
