import CodeAtlas.Proofs.ModuleNames
import Mathlib.Tactic.SplitIfs

/-!
# The package of a module

The name of a package can be found in two ways : as what stands before the last dot of the name
of one of its modules, and as the name of its own module, the file `__init__` of its directory.
The first looks at a joined name, in which the dots of a directory's name cannot be told from
those between the names. The second leaves out a segment before anything is joined.

Both give the same (`packageName_moduleName`), whatever the directories are called. All names
but the last are joined in the same way for both files, dots and all, and it takes only that the
last name has no dot itself to find its beginning (`packageName_joined`).
-/

namespace CodeAtlas.Facts

open CodeAtlas.Path

/-! ## The last of joined names -/

/-- Joined names from their end : the last one, and a dot if there are more. -/
theorem toList_reverse_joined (names : List String) (last : String) :
    (".".intercalate (names ++ [last])).toList.reverse = last.toList.reverse ++
      if names = [] then [] else '.' :: (".".intercalate names).toList.reverse := by
  split_ifs with h
  · rw [h, List.nil_append, String.intercalate_singleton, List.append_nil]
  · rw [String.intercalate_append_of_ne_nil h (by simp), String.intercalate_singleton,
      String.toList_append, String.toList_append, List.reverse_append, List.reverse_append]
    rfl

section

variable {last : String} (h : '.' ∉ last.toList)

include h

/-- Whatever dots they have, the names before the last one are joined to the name of the
package. -/
theorem packageName_joined (names : List String) :
    packageName (".".intercalate (names ++ [last])) = ".".intercalate names := by
  rw [packageName, toList_reverse_joined, List.dropWhile_append_of_pos (bne_of_mem_reverse h)]
  split_ifs with hnames
  · rw [hnames]
    rfl
  · rw [List.dropWhile_cons_of_neg (by decide), List.drop_succ_cons, List.drop_zero,
      List.reverse_reverse, String.ofList_toList]

theorem lastSegment_joined (names : List String) :
    lastSegment (".".intercalate (names ++ [last])) = last := by
  rw [lastSegment, toList_reverse_joined, List.takeWhile_append_of_pos (bne_of_mem_reverse h)]
  split_ifs <;> simp

end

/-! ## A module and its package -/

theorem dot_mem_underscored_iff {s : String} : '.' ∈ (underscored s).toList ↔ '.' ∈ s.toList := by
  rw [toList_underscored, List.mem_map]
  constructor
  · rintro ⟨c, hc, hdot⟩
    split_ifs at hdot
    · exact absurd hdot (by decide)
    · rwa [← hdot]
  · exact fun hdot => ⟨'.', hdot, rfl⟩

/-- The package of a module is the name of the own module of its directory, and the rest of its
name is that of its file. Nothing is asked of the directories : they may have dots and dashes in
their names, be called `__init__`, or not be UTF-8. -/
theorem packageName_moduleName (directories : List Path) {stem : Path} (hne : stem ≠ .empty)
    (hslash : slash ∉ stem.bytes) (hdot : dot ∉ stem.bytes) (hinit : stem ≠ ofString "__init__") :
    packageName (moduleName (ofPython directories stem)) =
        moduleName (ofPython directories (ofString "__init__")) ∧
      lastSegment (moduleName (ofPython directories stem)) = underscored stem.text := by
  have hhere : stem ≠ here := by
    rintro rfl
    exact hdot (List.mem_singleton_self _)
  have htext : '.' ∉ stem.text.toList := mt (Utf8.mem_decode_iff (b := dot) (by decide)).mp hdot
  have hmodule : (ofPython directories stem).stemSegments = _ :=
    stemSegments_ofPython ⟨hne, hhere, hslash⟩
  have hpackage : (ofPython directories (ofString "__init__")).stemSegments = _ :=
    stemSegments_ofPython (by decide +kernel)
  rw [moduleName_eq_joined, moduleName_eq_joined, hmodule, hpackage, namedTexts_append,
    namedTexts_append, namedTexts_singleton, namedTexts_singleton,
    if_neg ((mem_unnamedSegments_iff htext).not.mpr hinit), if_pos (by decide +kernel),
    List.append_nil, List.map_append, List.map_singleton]
  have hlast : '.' ∉ (underscored stem.text).toList := dot_mem_underscored_iff.not.mpr htext
  exact ⟨packageName_joined hlast _, lastSegment_joined hlast _⟩

/-- Directories with a dash, with dots and called `__init__`. -/
theorem packageName_moduleName_tool :
    let directories := [ofString "my-tool", ofString "__init__", ofString "v1.2"]
    moduleName (ofPython directories (ofString "run-me")) = "my_tool.v1.2.run_me" ∧
      moduleName (ofPython directories (ofString "__init__")) = "my_tool.v1.2" ∧
      packageName "my_tool.v1.2.run_me" = "my_tool.v1.2" := by
  intro directories
  have hmodule : moduleName (ofPython directories (ofString "run-me")) =
      "my_tool.v1.2.run_me" := by decide +kernel
  have hpackage : moduleName (ofPython directories (ofString "__init__")) =
      "my_tool.v1.2" := by decide +kernel
  refine ⟨hmodule, hpackage, ?_⟩
  rw [← hmodule, ← hpackage]
  exact (packageName_moduleName _ (by decide +kernel) (by decide +kernel) (by decide +kernel)
    (by decide +kernel)).1

end CodeAtlas.Facts
