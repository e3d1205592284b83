import CodeAtlas.Proofs.Analysis
import CodeAtlas.Proofs.JoinedNames
import CodeAtlas.Proofs.Scan

/-!
# What becomes of Python files

A Python file whose name is not empty is read as one unit, so that it ends as one module or
as one failure, of the kind that `leftOut?` says (`accounts_perm`). The name is empty if no
part of the path but `.`, `..` and `__init__` is left for it (`moduleName_eq_empty_iff`) :
such a file, as the `__init__.py` of the root itself, is counted among the Python files and
is neither (`python_files_accounted`).
-/

namespace CodeAtlas

open CodeAtlas.Facts CodeAtlas.Source CodeAtlas.Tree

/-! ## Names that are empty -/

namespace Path

variable {p s : Path}

/-- Whether no part of a path has a part in a module's name. -/
def Unnamed (p : Path) : Prop := ∀ s ∈ p.stemSegments, s.text ∈ unnamedSegments

instance (p : Path) : Decidable p.Unnamed :=
  inferInstanceAs (Decidable (∀ s ∈ p.stemSegments, s.text ∈ unnamedSegments))

theorem text_eq_empty_iff : p.text = "" ↔ p = empty := text_eq_iff (s := "") (by decide)

theorem ne_empty_of_mem_segments (h : s ∈ p.segments) : s ≠ empty := by
  have := (List.mem_filter.mp h).2
  simp only [Bool.and_eq_true, bne_iff_ne] at this
  exact this.1

/-- What stands before an extension is not empty. -/
theorem splitExtension_ne_empty (h : p ≠ empty) : p.splitExtension.1 ≠ empty := by
  unfold splitExtension
  dsimp only
  split <;> rename_i hstem
  · exact h
  · rw [List.isEmpty_iff] at hstem
    rw [ne_eq, Path.ext_iff]
    exact mt List.reverse_eq_nil_iff.mp hstem

theorem ne_empty_of_mem_stemSegments (h : s ∈ p.stemSegments) : s ≠ empty := by
  unfold stemSegments at h
  split at h
  · exact ne_empty_of_mem_segments h
  · rename_i name hname
    rcases List.mem_append.mp h with h | h
    · exact ne_empty_of_mem_segments (List.dropLast_subset _ h)
    · rw [List.mem_singleton.mp h]
      obtain ⟨hlast, -⟩ := Option.filter_eq_some_iff.mp hname
      exact splitExtension_ne_empty (ne_empty_of_mem_segments (List.mem_of_mem_getLast? hlast))

end Path

/-- The name of a module is empty exactly if no part of its path has a part in it. -/
theorem moduleName_eq_empty_iff (path : Path) : moduleName path = "" ↔ path.Unnamed := by
  have hparts : ∀ s ∈ (path.stemSegments.map Path.text).filter fun s =>
      !unnamedSegments.contains s, s ≠ "" := by
    intro s hs
    obtain ⟨p, hp, rfl⟩ := List.mem_map.mp (List.mem_of_mem_filter hs)
    exact mt Path.text_eq_empty_iff.mp (Path.ne_empty_of_mem_stemSegments hp)
  unfold moduleName
  rw [← String.toList_eq_nil_iff, String.toList_map, List.map_eq_nil_iff, String.toList_eq_nil_iff,
    intercalate_eq_empty_iff hparts, List.filter_eq_nil_iff]
  simp [Path.Unnamed]

theorem unnamed_written_iff (path : Path) : path.written.Unnamed ↔ path.Unnamed := by
  rw [← moduleName_eq_empty_iff, moduleName_written, moduleName_eq_empty_iff]

/-! ## What is read -/

section

variable (t : Tree)

/-- The units among the files of a scan that can be read. -/
def readable (files : List ScannedFile) : List SourceUnit :=
  (readUnits t files).filterMap fun r => r.toOption

/-- The failures of the other files. -/
def unread (files : List ScannedFile) : List UnitFailure :=
  (readUnits t files).filterMap fun r =>
    match r with
    | .ok _ => none
    | .error x => some x

/-- Why the unit of a file is left out, if it is. -/
def leftOut? (f : ScannedFile) : Option FailureKind :=
  if f.oversized then some .tooLarge
  else
    match (t.contentOf? f.path).bind String.fromUTF8? with
    | none => some .read
    | some text => if (checkedTree f.path.text text).isOk then none else some .parse

/-- What became of a file : its module, its path and why it is left out, if it is. -/
structure Account where
  module : String
  path : String
  leftOut : Option FailureKind
  deriving DecidableEq, Repr

/-- What is to become of a file of a scan, if it has a module name. -/
def account? (f : ScannedFile) : Option Account :=
  f.module.map fun m => ⟨m, f.path.text, leftOut? t f⟩

end

/-- A file of which a module came. -/
def Account.ofModule (m : ModuleFacts) : Account := ⟨m.module, m.path, none⟩

/-- A file that was left out. -/
def Account.ofFailure (x : UnitFailure) : Account := ⟨x.module, x.path, some x.kind⟩

/-- What became of files, by a report. -/
def accounts (r : Report) : List Account :=
  r.facts.modules.map .ofModule ++ r.failures.map .ofFailure

theorem readUnit_cases (t : Tree) (f : ScannedFile) (m : String) :
    (∃ x, readUnit t f m = .error x ∧ Account.ofFailure x = ⟨m, f.path.text, leftOut? t f⟩) ∨
    ∃ text, readUnit t f m = .ok ⟨m, f.path.text, text⟩ ∧
      leftOut? t f = if (checkedTree f.path.text text).isOk then none else some .parse := by
  unfold readUnit leftOut? Tree.contentOf?
  by_cases hover : f.oversized
  · exact .inl ⟨_, if_pos hover, by rw [if_pos hover]; rfl⟩
  rw [if_neg hover, if_neg hover]
  cases (t.locate? f.path).bind fun place => t.contentAt? place [] with
  | none => exact .inl ⟨.unreadable m f.path.text notThere, rfl, rfl⟩
  | some content =>
    dsimp only [Option.bind_some]
    cases String.fromUTF8? content with
    | none => exact .inl ⟨.unreadable m f.path.text notText, rfl, rfl⟩
    | some text => exact .inr ⟨text, rfl, rfl⟩

theorem extract_cases (u : SourceUnit) :
    (∃ e, extract u = .ok e ∧ (checkedTree u.path u.text).isOk = true ∧
      Account.ofModule e.facts = ⟨u.module, u.path, none⟩) ∨
    ∃ r, extract u = .error r ∧ (checkedTree u.path u.text).isOk = false ∧
      Account.ofFailure (rejectedUnit u r) = ⟨u.module, u.path, some .parse⟩ := by
  cases hc : checkedTree u.path u.text with
  | ok root => exact .inl ⟨_, by rw [extract, hc]; rfl, rfl, rfl⟩
  | error r =>
    have hextract : extract u = .error r := by rw [extract, hc]; rfl
    refine .inr ⟨r, hextract, rfl, ?_⟩
    rw [← path_of_extract_eq_error hextract]
    rfl

/-- A file with a module name is not read, or its unit is accepted or rejected. -/
theorem file_cases (t : Tree) (f : ScannedFile) (m : String) :
    (∃ x, readUnit t f m = .error x ∧ Account.ofFailure x = ⟨m, f.path.text, leftOut? t f⟩) ∨
    ∃ u, readUnit t f m = .ok u ∧
      ((∃ e, extract u = .ok e ∧ Account.ofModule e.facts = ⟨m, f.path.text, leftOut? t f⟩) ∨
        ∃ r, extract u = .error r ∧
          Account.ofFailure (rejectedUnit u r) = ⟨m, f.path.text, leftOut? t f⟩) := by
  rcases readUnit_cases t f m with hx | ⟨text, hread, hleft⟩
  · exact .inl hx
  · refine .inr ⟨_, hread, ?_⟩
    rcases extract_cases ⟨m, f.path.text, text⟩ with ⟨e, he, hok, hfacts⟩ | ⟨r, hr, hok, hfailure⟩
    · exact .inl ⟨e, he, by rw [hleft, if_pos hok, hfacts]⟩
    · exact .inr ⟨r, hr, by rw [hleft, if_neg (Bool.eq_false_iff.mp hok), hfailure]⟩

-- from here on a text is accepted or rejected as a whole
attribute [local irreducible] extract checkedTree

section

variable (t : Tree) (root : Path) (files : List ScannedFile)

theorem modules_analyzeScanned : (analyzeScanned t root files).report.facts.modules =
    (parsed (readable t files)).map (·.facts) := by
  show (analyze root.text _ (readable t files)).report.facts.modules = _
  rw [facts_analyze]
  rfl

theorem failures_analyzeScanned : (analyzeScanned t root files).report.failures =
    unread t files ++ failed (readable t files) := by
  rw [← failures_analyze root.text (files.map (·.facts))]
  rfl

theorem unitsAnalyzed_analyzeScanned :
    (analyzeScanned t root files).report.diagnostics.unitsAnalyzed =
      (analyzeScanned t root files).report.facts.modules.length := by
  rw [modules_analyzeScanned, List.length_map]
  show (analyze root.text (files.map (·.facts)) (readable t files)).report.diagnostics.unitsAnalyzed = _
  rw [diagnostics_analyze]

theorem unitsFailed_analyzeScanned :
    (analyzeScanned t root files).report.diagnostics.unitsFailed =
      (analyzeScanned t root files).report.failures.length := by
  rw [failures_analyzeScanned, List.length_append, Nat.add_comm]
  show (analyze root.text (files.map (·.facts)) (readable t files)).report.diagnostics.unitsFailed +
    (unread t files).length = _
  rw [diagnostics_analyze]

theorem accounts_analyzeScanned : accounts (analyzeScanned t root files).report =
    (parsed (readable t files)).map (fun e => .ofModule e.facts) ++
      ((unread t files).map .ofFailure ++ (failed (readable t files)).map .ofFailure) := by
  rw [accounts, modules_analyzeScanned, failures_analyzeScanned, List.map_map, List.map_append]
  rfl

/-- Every file of a scan that has a module name becomes one module or one failure. -/
theorem accounts_perm :
    (accounts (analyzeScanned t root files).report).Perm (files.filterMap (account? t)) := by
  rw [accounts_analyzeScanned]
  induction files with
  | nil => exact .refl _
  | cons f files ih =>
    cases hm : f.module with
    | none =>
      have hreads : readUnits t (f :: files) = readUnits t files :=
        List.filterMap_cons_none (by rw [hm, Option.map_none])
      rw [List.filterMap_cons_none (by rw [account?, hm, Option.map_none])]
      simpa only [readable, unread, hreads] using ih
    | some m =>
      have hreads : readUnits t (f :: files) = readUnit t f m :: readUnits t files :=
        List.filterMap_cons_some (by rw [hm, Option.map_some])
      rw [List.filterMap_cons_some (by rw [account?, hm, Option.map_some])]
      rcases file_cases t f m with ⟨x, hread, hx⟩ | ⟨u, hread, hu⟩
      · have hunread : unread t (f :: files) = x :: unread t files := by
          rw [unread, hreads, hread]
          rfl
        have hreadable : readable t (f :: files) = readable t files := by
          rw [readable, hreads, hread]
          rfl
        rw [hunread, hreadable, List.map_cons, hx, List.cons_append]
        exact List.perm_middle.trans (ih.cons _)
      · have hunread : unread t (f :: files) = unread t files := by
          rw [unread, hreads, hread]
          rfl
        have hreadable : readable t (f :: files) = u :: readable t files := by
          rw [readable, hreads, hread]
          rfl
        rw [hunread, hreadable]
        rcases hu with ⟨e, he, hfacts⟩ | ⟨r, hr, hfailure⟩
        · rw [parsed_cons_of_ok he, failed_cons_of_ok he, List.map_cons, hfacts, List.cons_append]
          exact ih.cons _
        · rw [parsed_cons_of_error hr, failed_cons_of_error hr, List.map_cons, hfailure,
            ← List.append_assoc]
          rw [← List.append_assoc] at ih
          exact List.perm_middle.trans (ih.cons _)

end

/-! ## Files of a scan -/

/-- Whether a file is a Python file with a name that is not empty. -/
def isNamed (f : ScannedFile) : Bool :=
  f.language.isPython && !decide (Path.Unnamed f.relPath)

theorem module_describeFile (s : ScanSettings) (root rel : Path) (size : Nat) (changed : Int) :
    let f := describeFile s root rel size changed
    f.module = if isNamed f then some (moduleName f.relPath) else none := by
  have hnamed : decide (Path.ofString rel.text).Unnamed = decide (moduleName rel = "") := by
    rw [decide_eq_decide, moduleName_eq_empty_iff]
    exact unnamed_written_iff rel
  have hname : moduleName (Path.ofString rel.text) = moduleName rel := moduleName_written rel
  unfold isNamed describeFile nonEmpty?
  dsimp only
  rw [hnamed, hname]
  by_cases hempty : moduleName rel = "" <;> simp [hempty]

theorem module_of_mem_scan {t : Tree} {s : ScanSettings} {place : Place} {f : ScannedFile}
    (hf : f ∈ t.scan s place) :
    f.module = if isNamed f then some (moduleName f.relPath) else none := by
  obtain ⟨rel, size, changed, rfl⟩ := exists_describeFile_of_mem_scan hf
  exact module_describeFile s _ rel size changed

/-- What is to become of the files of a scan. -/
theorem filterMap_account? (t : Tree) (s : ScanSettings) (place : Place) :
    (t.scan s place).filterMap (account? t) =
      ((t.scan s place).filter isNamed).map fun f =>
        ⟨moduleName f.relPath, f.path.text, leftOut? t f⟩ := by
  rw [← List.filterMap_eq_map, List.filterMap_filter]
  refine List.filterMap_congr fun f hf => ?_
  rw [account?, module_of_mem_scan hf]
  split <;> rfl

/-- Python files are named or not. -/
theorem countP_isPython (files : List ScannedFile) :
    (files.map (·.facts)).countP (·.language.isPython) = (files.filter isNamed).length +
      (files.map (·.facts)).countP
        fun f => f.language.isPython && decide (Path.Unnamed f.relPath) := by
  unfold isNamed
  rw [List.countP_map, List.countP_map, ← List.countP_eq_length_filter,
    List.countP_eq_countP_filter_add _ _ fun f => !decide (Path.Unnamed f.relPath),
    List.countP_filter, List.countP_filter]
  simp [Function.comp_def, ScannedFile.facts]

/-- With a root, an analysis makes of every Python file whose name is not empty one module or
one failure, of the kind that fits the file, and of no other file anything. So the Python
files are counted among its units, but for those whose names are empty. -/
theorem python_files_accounted (t : Tree) (s : ScanSettings) (path given : Path)
    (place : Place) (hroot : t.rootPlace path given = .ok place) :
    ∃ a, analyzeRepository t s path given = .ok a ∧
      a.report.facts.files = (t.scan s place).map (·.facts) ∧
      (accounts a.report).Perm (((t.scan s place).filter isNamed).map fun f =>
        ⟨moduleName f.relPath, f.path.text, leftOut? t f⟩) ∧
      a.report.facts.pythonFileCount =
        a.report.diagnostics.unitsAnalyzed + a.report.diagnostics.unitsFailed +
          a.report.facts.files.countP
            (fun f => f.language.isPython && decide (Path.Unnamed f.relPath)) ∧
      a.report.diagnostics.unitsAnalyzed = a.report.facts.modules.length ∧
      a.report.diagnostics.unitsFailed = a.report.failures.length := by
  have hfiles : (analyzeAt t s place).report.facts.files = (t.scan s place).map (·.facts) := rfl
  have hperm : (accounts (analyzeAt t s place).report).Perm _ :=
    (accounts_perm t _ _).trans (.of_eq (filterMap_account? t s place))
  have hanalyzed := unitsAnalyzed_analyzeScanned t (t.pathOf place) (t.scan s place)
  have hfailed := unitsFailed_analyzeScanned t (t.pathOf place) (t.scan s place)
  refine ⟨analyzeAt t s place, by rw [analyzeRepository, hroot]; rfl, hfiles, hperm, ?_, hanalyzed,
    hfailed⟩
  have hlength := hperm.length_eq
  rw [accounts, List.length_append, List.length_map, List.length_map, List.length_map] at hlength
  rw [RepoFacts.pythonFileCount, hfiles, countP_isPython, ← hlength]
  simp only [analyzeAt, hanalyzed, hfailed]

/-- A tree with a package's own file at its root, a file that is no text, a large one and one
that is not of Python. -/
def fourFiles : Tree :=
  ⟨"/r", .directory
    [ ("__init__.py", .file "".toUTF8 1), ("bytes.py", .file ⟨#[255]⟩ 1),
      ("large.py", .file "xy".toUTF8 1), ("notes.txt", .file "x".toUTF8 1) ]⟩

/-- Settings under which one of its files is too large. -/
def fourFilesSettings : ScanSettings := { maxFileSize := 1, respectIgnoreFiles := false }

theorem scan_fourFiles : fourFiles.scan fourFilesSettings [] =
    [ describeFile fourFilesSettings "/r" "__init__.py" 0 1,
      describeFile fourFilesSettings "/r" "bytes.py" 1 1,
      describeFile fourFilesSettings "/r" "large.py" 2 1,
      describeFile fourFilesSettings "/r" "notes.txt" 1 1 ] := by
  unfold scan
  rw [List.mergeSort_of_pairwise (by decide +kernel)]
  decide +kernel

theorem leftOut?_fourFiles : leftOut? fourFiles
    (describeFile fourFilesSettings "/r" "bytes.py" 1 1) = some .read := by
  let name : Path := "bytes.py"
  have hparts : fourFiles.partsBelow? "/r/bytes.py" = some [name] := by decide +kernel
  have hsegment : name ≠ .empty ∧ name ≠ .here ∧ name ≠ .parent := by decide +kernel
  have hother : name ≠ .ofString "__init__.py" := by decide +kernel
  have hfollow : fourFiles.follow? linkLimit [] [name] = some [name] := by
    simp [follow?, Entry.at?, hsegment, fourFiles, List.lookup_cons, beq_false_of_ne hother, name]
  have hcontent : fourFiles.contentOf? "/r/bytes.py" = some ⟨#[255]⟩ := by
    simp only [Tree.contentOf?, locate?, hparts, hfollow, contentAt?, follow?, Option.bind_some]
    rfl
  have htext : String.fromUTF8? ⟨#[255]⟩ = none := by decide +kernel
  have hpath : (describeFile fourFilesSettings "/r" "bytes.py" 1 1).path = "/r/bytes.py" := by
    decide +kernel
  rw [leftOut?, hpath, hcontent, Option.bind_some, htext]
  rfl

/-- Of its three Python files, two are recorded as failures. -/
theorem python_files_accounted_fourFiles : fourFiles.rootPlace "/r" "/r" = .ok [] ∧
    ∃ a, analyzeRepository fourFiles fourFilesSettings "/r" "/r" = .ok a ∧
      (accounts a.report).Perm
        [⟨"bytes", "/r/bytes.py", some .read⟩, ⟨"large", "/r/large.py", some .tooLarge⟩] ∧
      a.report.facts.pythonFileCount =
        a.report.diagnostics.unitsAnalyzed + a.report.diagnostics.unitsFailed + 1 := by
  have hroot : fourFiles.rootPlace "/r" "/r" = .ok [] := Tree.rootPlace_mount (t := fourFiles) rfl _
  obtain ⟨a, ha, hfiles, hperm, hcount, -, -⟩ :=
    python_files_accounted fourFiles fourFilesSettings "/r" "/r" [] hroot
  have hnamed : (fourFiles.scan fourFilesSettings []).filter isNamed =
      [ describeFile fourFilesSettings "/r" "bytes.py" 1 1,
        describeFile fourFilesSettings "/r" "large.py" 2 1 ] := by
    rw [scan_fourFiles]
    decide +kernel
  refine ⟨hroot, a, ha, hperm.trans (.of_eq ?_), ?_⟩
  · rw [hnamed, List.map_cons, leftOut?_fourFiles]
    decide +kernel
  · rw [hcount, hfiles, scan_fourFiles]
    exact congrArg _ (by decide +kernel)

/-- The empty `__init__.py` of a root is a Python file that is neither analyzed nor recorded
as a failure. -/
theorem own_file_of_root_skipped :
    ∃ a, analyzeRepository ⟨"/r", .directory [("__init__.py", .file "".toUTF8 1)]⟩
        { respectIgnoreFiles := false } "/r" "/r" = .ok a ∧
      a.report.facts.pythonFileCount = 1 ∧ a.report.facts.modules = [] ∧ a.report.failures = [] ∧
      a.report.diagnostics.unitsAnalyzed + a.report.diagnostics.unitsFailed = 0 := by
  let t : Tree := ⟨"/r", .directory [("__init__.py", .file "".toUTF8 1)]⟩
  let s : ScanSettings := { respectIgnoreFiles := false }
  have hscan : t.scan s [] = [describeFile s "/r" "__init__.py" 0 1] := by decide +kernel
  have hroot : t.rootPlace "/r" "/r" = .ok [] := Tree.rootPlace_mount (t := t) rfl _
  have hreads : readUnits t (t.scan s []) = [] := by
    rw [hscan]
    decide +kernel
  have hmodules : (analyzeAt t s []).report.facts.modules = [] := by
    rw [analyzeAt, modules_analyzeScanned, readable, hreads]
    rfl
  have hfailures : (analyzeAt t s []).report.failures = [] := by
    rw [analyzeAt, failures_analyzeScanned, readable, unread, hreads]
    rfl
  have hanalyzed : (analyzeAt t s []).report.diagnostics.unitsAnalyzed = _ :=
    unitsAnalyzed_analyzeScanned t (t.pathOf []) (t.scan s [])
  have hfailed : (analyzeAt t s []).report.diagnostics.unitsFailed = _ :=
    unitsFailed_analyzeScanned t (t.pathOf []) (t.scan s [])
  refine ⟨analyzeAt t s [], by rw [analyzeRepository, hroot]; rfl, ?_, hmodules, hfailures, ?_⟩
  · show ((t.scan s []).map (·.facts)).countP _ = 1
    rw [hscan]
    decide +kernel
  · rw [hanalyzed, hfailed, ← analyzeAt, hmodules, hfailures]
    rfl

end CodeAtlas
