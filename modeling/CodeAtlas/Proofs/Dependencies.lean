import CodeAtlas.Proofs.Analysis
import CodeAtlas.Proofs.ByteOrder
import CodeAtlas.Proofs.Lists
import Mathlib.Data.List.Induction
import Mathlib.Data.List.Nodup

/-!
# Which module depends on which

The imports of a module are a set of names in order : putting a name into such a list keeps
it strictly increasing (`pairwise_insertName`), so that a name is in it once however often
it is imported. A dependency is an import of a module that is known, so in an analysis
whose units have different names it occurs once if both its ends are accepted units and the
one imports the other, and otherwise not at all (`dependencies_of_units`). The dependencies
are in the order of the modules and, for one module, in the order of the bytes of what is
imported.
-/

namespace CodeAtlas

open CodeAtlas.Facts CodeAtlas.Source CodeAtlas.Text

/-! ## Names in order -/

namespace Source

variable {name other : String} {names : List String}

theorem mem_insertName : other ∈ insertName name names ↔ other = name ∨ other ∈ names := by
  fun_induction insertName name names with
  | case1 => simp
  | case2 => simp
  | case3 => simp
  | case4 n rest _ _ ih => simp [ih, or_left_comm]

/-- A name is put where it keeps the order, or not at all if it is there. -/
theorem pairwise_insertName (h : names.Pairwise (· < ·)) :
    (insertName name names).Pairwise (· < ·) := by
  fun_induction insertName name names with
  | case1 => exact List.pairwise_singleton ..
  | case2 n rest hlt =>
    refine List.pairwise_cons.mpr ⟨fun other hother => ?_, h⟩
    rcases List.mem_cons.mp hother with rfl | hother
    · exact hlt
    · exact String.lt_trans hlt (List.rel_of_pairwise_cons h hother)
  | case3 => exact h
  | case4 n rest hnot hne ih =>
    obtain ⟨hfirst, hrest⟩ := List.pairwise_cons.mp h
    refine List.pairwise_cons.mpr ⟨fun other hother => ?_, ih hrest⟩
    rcases mem_insertName.mp hother with rfl | hother
    · rcases Std.lt_trichotomy n other with hlt | heq | hgt
      · exact hlt
      · exact absurd heq.symm hne
      · exact absurd hgt hnot
    · exact hfirst other hother

theorem sortedNames_concat (names : List String) (name : String) :
    sortedNames (names ++ [name]) = insertName name (sortedNames names) := by
  simp [sortedNames]

/-- Putting names in order leaves none out and adds none. -/
theorem mem_sortedNames : name ∈ sortedNames names ↔ name ∈ names := by
  induction names using List.reverseRecOn with
  | nil => simp [sortedNames]
  | append_singleton names last ih =>
    rw [sortedNames_concat, mem_insertName, ih, List.mem_append, List.mem_singleton, or_comm]

theorem pairwise_sortedNames (names : List String) : (sortedNames names).Pairwise (· < ·) := by
  induction names using List.reverseRecOn with
  | nil => exact List.Pairwise.nil
  | append_singleton names last ih =>
    rw [sortedNames_concat]
    exact pairwise_insertName ih

/-- What a unit imports is in order, each name once. -/
theorem pairwise_imports_of_extract {u : SourceUnit} {e : ExtractedUnit}
    (h : extract u = .ok e) : e.facts.imports.Pairwise (· < ·) := by
  unfold extract at h
  cases hc : checkedTree u.path u.text with
  | ok root =>
    rw [hc] at h
    rw [← Except.ok.inj h]
    exact pairwise_sortedNames _
  | error r => simp [hc, Except.map] at h

end Source

/-! ## Dependencies of modules -/

namespace Facts

variable {ms : List ModuleFacts} {d : Dependency}

/-- Both ends of a dependency are modules, and the one imports the other. -/
theorem mem_dependencies : d ∈ dependencies ms ↔
    (∃ m ∈ ms, m.module = d.source ∧ d.target ∈ m.imports) ∧ d.target ∈ ms.map (·.module) := by
  simp only [dependencies, List.mem_flatMap, List.mem_map, List.mem_filter, List.contains_iff_mem]
  constructor
  · rintro ⟨m, hm, target, ⟨himport, hknown⟩, rfl⟩
    exact ⟨⟨m, hm, rfl, himport⟩, hknown⟩
  · rintro ⟨⟨m, hm, hsource, himport⟩, hknown⟩
    exact ⟨m, hm, d.target, ⟨himport, hknown⟩, by rw [hsource]⟩

/-- A dependency comes before another if its module does, or if its module is the same one
and the bytes of what is imported are smaller. -/
def Dependency.Before (names : List String) (a b : Dependency) : Prop :=
  names.idxOf a.source < names.idxOf b.source ∨
    a.source = b.source ∧ bytes a.target < bytes b.target

theorem Dependency.Before.ne {names : List String} {a b : Dependency} (h : a.Before names b) :
    a ≠ b := by
  rintro rfl
  rcases h with h | ⟨-, h⟩
  · exact Nat.lt_irrefl _ h
  · exact List.lt_irrefl _ h

/-- Dependencies are in order if the modules have different names and their imports are in
order. -/
theorem pairwise_dependencies (hnames : (ms.map (·.module)).Nodup)
    (himports : ∀ m ∈ ms, m.imports.Pairwise (· < ·)) :
    (dependencies ms).Pairwise (Dependency.Before (ms.map (·.module))) := by
  refine List.pairwise_flatMap.mpr ⟨fun m hm => ?_, ?_⟩
  · refine List.pairwise_map.mpr (((himports m hm).filter _).imp fun hlt => ?_)
    exact .inr ⟨rfl, bytes_lt_of_lt hlt⟩
  · refine (List.pairwise_map.mp (pairwise_idxOf hnames)).imp fun hlt a ha b hb => ?_
    obtain ⟨target, -, rfl⟩ := List.mem_map.mp ha
    obtain ⟨target', -, rfl⟩ := List.mem_map.mp hb
    exact .inl hlt

end Facts

/-! ## Dependencies of units -/

-- nothing below looks into a text
attribute [local irreducible] extract

variable {units : List SourceUnit}

/-- Whether the source of a dependency is a unit that is accepted and imports its target, and
the target is one that is accepted as well. -/
def Imports (units : List SourceUnit) (d : Dependency) : Prop :=
  (∃ u ∈ units, u.module = d.source ∧ ∃ e, extract u = .ok e ∧ d.target ∈ e.facts.imports) ∧
    ∃ u ∈ units, u.module = d.target ∧ ∃ e, extract u = .ok e

theorem mem_parsed {e : ExtractedUnit} : e ∈ parsed units ↔ ∃ u ∈ units, extract u = .ok e := by
  rw [parsed, List.mem_filterMap]
  refine exists_congr fun u => and_congr_right fun _ => ?_
  cases extract u <;> simp [Except.toOption]

theorem nodup_modules_parsed (h : (units.map (·.module)).Nodup) :
    ((parsed units).map (·.facts.module)).Nodup := by
  rw [map_module_parsed]
  exact h.sublist (List.filter_sublist.map _)

/-- The dependencies of accepted units are what the units import of each other. -/
theorem mem_dependencies_parsed {d : Dependency} :
    d ∈ dependencies ((parsed units).map (·.facts)) ↔ Imports units d := by
  rw [mem_dependencies, Imports]
  refine and_congr ⟨?_, ?_⟩ ⟨?_, ?_⟩
  · rintro ⟨m, hm, hsource, himport⟩
    obtain ⟨e, he, rfl⟩ := List.mem_map.mp hm
    obtain ⟨u, hu, hextract⟩ := mem_parsed.mp he
    exact ⟨u, hu, (module_of_extract_eq_ok hextract).symm.trans hsource, e, hextract, himport⟩
  · rintro ⟨u, hu, hsource, e, hextract, himport⟩
    refine ⟨e.facts, List.mem_map_of_mem (mem_parsed.mpr ⟨u, hu, hextract⟩), ?_, himport⟩
    exact (module_of_extract_eq_ok hextract).trans hsource
  · intro htarget
    obtain ⟨m, hm, htarget⟩ := List.mem_map.mp htarget
    obtain ⟨e, he, rfl⟩ := List.mem_map.mp hm
    obtain ⟨u, hu, hextract⟩ := mem_parsed.mp he
    exact ⟨u, hu, (module_of_extract_eq_ok hextract).symm.trans htarget, e, hextract⟩
  · rintro ⟨u, hu, htarget, e, hextract⟩
    rw [← htarget, ← module_of_extract_eq_ok hextract, List.map_map]
    exact List.mem_map_of_mem (mem_parsed.mpr ⟨u, hu, hextract⟩)

/-- In an analysis of units with different names a dependency occurs once if its source is
an accepted unit that imports its target and its target is an accepted unit, and otherwise
not at all. The dependencies are in the order of the modules and then of the bytes of their
targets, and so is, strictly, what each module imports. -/
theorem dependencies_of_units (root : String) (files : List FileFacts)
    (units : List SourceUnit) (h : (units.map (·.module)).Nodup) :
    (∀ d, Imports units d → (analyze root files units).report.facts.dependencies.count d = 1) ∧
    (∀ d, ¬Imports units d → d ∉ (analyze root files units).report.facts.dependencies) ∧
    (analyze root files units).report.facts.dependencies.Pairwise
      (Dependency.Before ((analyze root files units).report.facts.modules.map (·.module))) ∧
    ∀ m ∈ (analyze root files units).report.facts.modules,
      m.imports.Pairwise fun a b => bytes a < bytes b := by
  have himports : ∀ m ∈ (parsed units).map (·.facts), m.imports.Pairwise (· < ·) := by
    intro m hm
    obtain ⟨e, he, rfl⟩ := List.mem_map.mp hm
    obtain ⟨u, -, hextract⟩ := mem_parsed.mp he
    exact pairwise_imports_of_extract hextract
  have horder := pairwise_dependencies
    (by rw [List.map_map]; exact nodup_modules_parsed h) himports
  have hnodup : (dependencies ((parsed units).map (·.facts))).Nodup :=
    horder.imp Dependency.Before.ne
  rw [facts_analyze]
  refine ⟨fun d hd => ?_, fun d hd hmem => hd (mem_dependencies_parsed.mp hmem), horder,
    fun m hm => (himports m hm).imp bytes_lt_of_lt⟩
  exact List.count_eq_one_of_mem hnodup (mem_dependencies_parsed.mpr hd)

/-- A module `a`, one that imports it three times over, and one that is not accepted. -/
def threeUnits : List SourceUnit :=
  [ ⟨"a", "a.py", "import é, z, é\n"⟩, ⟨"b", "b.py", "import a, a as x\nimport a\n"⟩,
    ⟨"c", "c.py", "import a,\n  b c"⟩ ]

/-- However often the text of `b` imports `a`, it comes to one dependency at most. There is one
just if `b` and `a` are accepted with that import, and so for `c`. -/
theorem dependencies_of_threeUnits :
    (threeUnits.map (·.module)).Nodup ∧
    (analyze "/r" [] threeUnits).report.facts.dependencies.count ⟨"b", "a"⟩ ≤ 1 ∧
    (⟨"b", "a"⟩ ∈ (analyze "/r" [] threeUnits).report.facts.dependencies ↔
      Imports threeUnits ⟨"b", "a"⟩) ∧
    (⟨"c", "a"⟩ ∈ (analyze "/r" [] threeUnits).report.facts.dependencies ↔
      Imports threeUnits ⟨"c", "a"⟩) ∧
    (analyze "/r" [] threeUnits).report.facts.dependencies.Pairwise
      (Dependency.Before ((analyze "/r" [] threeUnits).report.facts.modules.map (·.module))) := by
  have hnames : (threeUnits.map (·.module)).Nodup := by decide
  obtain ⟨honce, hnone, horder, -⟩ := dependencies_of_units "/r" [] threeUnits hnames
  have hmem (d : Dependency) : d ∈ (analyze "/r" [] threeUnits).report.facts.dependencies ↔
      Imports threeUnits d := by
    constructor
    · intro hd
      by_contra himports
      exact hnone d himports hd
    · intro himports
      rw [← List.count_pos_iff, honce d himports]
      exact Nat.one_pos
  refine ⟨hnames, ?_, hmem _, hmem _, horder⟩
  by_cases himports : Imports threeUnits ⟨"b", "a"⟩
  · exact Nat.le_of_eq (honce _ himports)
  · rw [List.count_eq_zero.mpr (hnone _ himports)]
    exact Nat.zero_le 1

end CodeAtlas
