import CodeAtlas.Cache
import CodeAtlas.Proofs.Lists
import CodeAtlas.Proofs.PathTexts

/-!
# What a scan records

A fingerprint is made of the records of the scanned files : the text of the path, time of change
and size. With the settings and the root, all that a scan says of its files is determined by
their records, but for the paths of files whose paths have the same text
(`map_written_eq_of_records_eq`). The analysis of a scan depends on nothing but this and the
contents of the files (`analyzeScanned_congr`).
-/

namespace CodeAtlas

open CodeAtlas.Tree

/-! ## Records -/

/-- What a fingerprint is made of, for one file. -/
structure FileRecord where
  relPath : String
  changed : Nat
  size : Nat
  deriving DecidableEq, Repr

namespace Tree

variable {t t' : Tree} {s : ScanSettings} {place place' : Place}

/-- What a fingerprint takes of a file. -/
def ScannedFile.record (f : ScannedFile) : FileRecord := ⟨f.relPath, f.changed, f.size⟩

/-- A file with the path that the text of its path writes. -/
def ScannedFile.written (f : ScannedFile) : ScannedFile := { f with path := f.path.written }

@[simp] theorem ScannedFile.record_written (f : ScannedFile) : f.written.record = f.record := rfl

@[simp] theorem ScannedFile.facts_written (f : ScannedFile) : f.written.facts = f.facts := by
  rw [facts, facts, written, Path.text_written]

theorem exists_describeFile_of_mem_scan {f : ScannedFile} (hf : f ∈ t.scan s place) :
    ∃ rel size changed, f = describeFile s (t.pathOf place) rel size changed := by
  obtain ⟨found, -, rfl⟩ := List.mem_map.mp (List.mem_mergeSort.mp hf)
  exact ⟨_, _, _, rfl⟩

/-- A file is described again from what its description records, up to the text of its path. -/
theorem written_describeFile_record (s : ScanSettings) (root rel : Path) (size : Nat)
    (changed : Int) :
    let f := describeFile s root rel size changed
    (describeFile s root f.relPath f.size f.changed).written = f.written := by
  have hpath : (Path.join [root, rel.written]).written = (Path.join [root, rel]).written := by
    rw [Path.written_inj, Path.text_join, Path.text_join]
    simp
  have htime : ((changed.toNat % UInt64.size : Nat) : Int).toNat % UInt64.size =
      changed.toNat % UInt64.size := by
    rw [Int.toNat_natCast, Nat.mod_mod]
  show (describeFile s root rel.written size (changed.toNat % UInt64.size : Nat)).written = _
  simp only [ScannedFile.written, describeFile, hpath, htime, Path.text_written,
    Facts.moduleName_written, Facts.ofPath_written]

theorem written_describeFile_of_mem_scan {f : ScannedFile} (hf : f ∈ t.scan s place) :
    (describeFile s (t.pathOf place) f.record.relPath f.record.size f.record.changed).written =
      f.written := by
  obtain ⟨rel, size, changed, rfl⟩ := exists_describeFile_of_mem_scan hf
  exact written_describeFile_record ..

/-- A scan is described again from its records. -/
theorem map_written_scan (t : Tree) (s : ScanSettings) (place : Place) :
    (t.scan s place).map (·.written) = ((t.scan s place).map (·.record)).map fun r =>
      (describeFile s (t.pathOf place) r.relPath r.size r.changed).written := by
  rw [List.map_map]
  exact List.map_congr_left fun f hf => (written_describeFile_of_mem_scan hf).symm

/-- Scans of one root with the same records are equal, up to the texts of paths. -/
theorem map_written_eq_of_records_eq (hroot : t.pathOf place = t'.pathOf place')
    (hrecords : (t.scan s place).map (·.record) = (t'.scan s place').map (·.record)) :
    (t.scan s place).map (·.written) = (t'.scan s place').map (·.written) := by
  rw [map_written_scan, map_written_scan, hrecords, hroot]

end Tree

/-! ## Scans of a root -/

/-- A scan : the path of its root and the files that it found. -/
structure Scan where
  root : Path
  files : List ScannedFile
  deriving DecidableEq, Repr

/-- The scan of the directory to which a path leads. -/
def Tree.scan? (t : Tree) (s : ScanSettings) (path : Path) : Except RootError Scan :=
  (t.rootPlace path path).map fun place => ⟨t.pathOf place, t.scan s place⟩

/-- What the analysis of a scan is kept under. -/
def Scan.key (n : Scan) : CacheKey := ⟨n.root, fingerprint n.files⟩

theorem Tree.scan?_eq_ok {t : Tree} {s : ScanSettings} {path : Path} {n : Scan}
    (h : t.scan? s path = .ok n) :
    ∃ place, t.rootPlace path path = .ok place ∧ n = ⟨t.pathOf place, t.scan s place⟩ := by
  unfold Tree.scan? at h
  cases hplace : t.rootPlace path path with
  | error e => simp [hplace, Except.map] at h
  | ok place => exact ⟨place, rfl, by simpa [hplace, Except.map] using h.symm⟩

/-- The path of a tree itself leads to its top. -/
theorem Tree.rootPlace_mount {t : Tree} {entries : List (Path × Entry)}
    (h : t.top = .directory entries) (given : Path) : t.rootPlace t.mount given = .ok [] := by
  have hparts : t.partsBelow? t.mount = some [] := by simp [partsBelow?]
  simp only [rootPlace, locate?, hparts, Option.bind_some, follow?, Entry.at?, h]

theorem Tree.scan?_mount {t : Tree} {entries : List (Path × Entry)}
    (h : t.top = .directory entries) (s : ScanSettings) :
    t.scan? s t.mount = .ok ⟨t.mount, t.scan s []⟩ := by
  have hroot : t.pathOf [] = t.mount := by simp [pathOf]
  simp only [scan?, rootPlace_mount h, Except.map, hroot]

/-- Scans that share a root and their records have found files with the same texts. -/
theorem Scan.map_written_eq {s : ScanSettings} {t t' : Tree} {path path' : Path}
    {n n' : Scan} (hn : t.scan? s path = .ok n) (hn' : t'.scan? s path' = .ok n')
    (hroot : n.root = n'.root)
    (hrecords : n.files.map (·.record) = n'.files.map (·.record)) :
    n.files.map (·.written) = n'.files.map (·.written) := by
  obtain ⟨place, -, rfl⟩ := Tree.scan?_eq_ok hn
  obtain ⟨place', -, rfl⟩ := Tree.scan?_eq_ok hn'
  exact map_written_eq_of_records_eq hroot hrecords

/-! ## Reading the files of a scan -/

/-- The content of the file to which a path leads. -/
def Tree.contentOf? (t : Tree) (path : Path) : Option ByteArray :=
  (t.locate? path).bind fun place => t.contentAt? place []

/-- Whether two files are shown in the same way, and have the same content in two trees. -/
structure ReadAlike (t t' : Tree) (f g : ScannedFile) : Prop where
  written : f.written = g.written
  content : t.contentOf? f.path = t'.contentOf? g.path

namespace ReadAlike

variable {t t' : Tree} {f g : ScannedFile}

theorem readUnit_eq (h : ReadAlike t t' f g) (m : String) : readUnit t f m = readUnit t' g m := by
  have hover : f.oversized = g.oversized := congrArg (·.oversized) h.written
  have hsize : f.size = g.size := congrArg (·.size) h.written
  have htext : f.path.text = g.path.text := Path.written_inj.mp (congrArg (·.path) h.written)
  have hcontent := h.content
  unfold Tree.contentOf? at hcontent
  unfold readUnit
  rw [hover, hsize, htext, hcontent]

theorem facts_eq (h : ReadAlike t t' f g) : f.facts = g.facts := by
  rw [← f.facts_written, h.written, g.facts_written]

end ReadAlike

/-- An analysis sees nothing of files but what is shown of them and their contents. -/
theorem analyzeScanned_congr {t t' : Tree} {files files' : List ScannedFile}
    (h : List.Forall₂ (ReadAlike t t') files files') (root : Path) :
    analyzeScanned t root files = analyzeScanned t' root files' := by
  have hreads : readUnits t files = readUnits t' files' := by
    induction h with
    | nil => rfl
    | @cons f g _ _ hfg _ ih =>
      have hmodule : f.module = g.module := congrArg (·.module) hfg.written
      unfold readUnits at ih ⊢
      rw [List.filterMap_cons, List.filterMap_cons, ih, hmodule, funext hfg.readUnit_eq]
  have hfacts : files.map (·.facts) = files'.map (·.facts) := by
    clear hreads
    induction h with
    | nil => rfl
    | cons hfg _ ih => rw [List.map_cons, List.map_cons, hfg.facts_eq, ih]
  unfold analyzeScanned
  rw [hreads, hfacts]

/-- Whether the files of a scan are read in a tree as their root and records say. -/
def ReadsAs (reading : Path → FileRecord → Option ByteArray) (t : Tree) (n : Scan) : Prop :=
  ∀ f ∈ n.files, t.contentOf? f.path = reading n.root f.record

/-- Scans of one root that found files with the same texts have one analysis, where these are
read as their records say. -/
theorem ReadsAs.analyzeScanned_eq {reading : Path → FileRecord → Option ByteArray}
    {t t' : Tree} {n n' : Scan} (ht : ReadsAs reading t n) (ht' : ReadsAs reading t' n')
    (hroot : n.root = n'.root) (hfiles : n.files.map (·.written) = n'.files.map (·.written)) :
    analyzeScanned t n.root n.files = analyzeScanned t' n'.root n'.files := by
  rw [hroot]
  refine analyzeScanned_congr (forall₂_of_map_eq hfiles fun f hf g hg hfg => ⟨hfg, ?_⟩) n'.root
  rw [ht f hf, ht' g hg, hroot, ← f.record_written, hfg, g.record_written]

/-- The analysis of a scan whose files are read as their records say. -/
def Scan.AnalyzedAs (reading : Path → FileRecord → Option ByteArray) (n : Scan)
    (a : Analysis) : Prop :=
  ∃ t, ReadsAs reading t n ∧ a = analyzeScanned t n.root n.files

theorem Scan.AnalyzedAs.eq {reading : Path → FileRecord → Option ByteArray} {n : Scan}
    {a : Analysis} (h : n.AnalyzedAs reading a) {t : Tree} (ht : ReadsAs reading t n) :
    a = analyzeScanned t n.root n.files := by
  obtain ⟨t', ht', rfl⟩ := h
  exact ht'.analyzeScanned_eq ht rfl rfl

/-! ## Calls that run alone -/

theorem AnalysisCache.getOrAnalyze_of_error {c : AnalysisCache} {t : Tree} {s : ScanSettings}
    {path : Path} {e : RootError} (h : t.scan? s path = .error e) :
    c.getOrAnalyze t s path = (.error e, c) := by
  unfold Tree.scan? at h
  unfold getOrAnalyze
  cases hplace : t.rootPlace path path with
  | error e' => simpa [hplace, Except.map] using h
  | ok place => simp [hplace, Except.map] at h

theorem AnalysisCache.getOrAnalyze_of_ok {c : AnalysisCache} {t : Tree} {s : ScanSettings}
    {path : Path} {n : Scan} (h : t.scan? s path = .ok n) :
    c.getOrAnalyze t s path = (c.getOrAnalyzeScanned t n.root n.files).map .ok id := by
  obtain ⟨place, hplace, rfl⟩ := Tree.scan?_eq_ok h
  unfold getOrAnalyze
  rw [hplace]
  rfl

theorem AnalysisCache.getOrAnalyze_of_hit {c : AnalysisCache} {t : Tree} {s : ScanSettings}
    {path : Path} {n : Scan} {found : Computed} {kept : RecentMap CacheKey Computed}
    (h : t.scan? s path = .ok n) (hget : c.kept.get? n.key = some (found, kept)) :
    c.getOrAnalyze t s path = (.ok found, { c with kept }) := by
  rw [getOrAnalyze_of_ok h]
  unfold Scan.key at hget
  simp only [getOrAnalyzeScanned, hget, Prod.map_apply, id_eq]

theorem AnalysisCache.getOrAnalyze_of_miss {c : AnalysisCache} {t : Tree} {s : ScanSettings}
    {path : Path} {n : Scan} (h : t.scan? s path = .ok n) (hget : c.kept.get? n.key = none) :
    c.getOrAnalyze t s path =
      (c.insert n.key (analyzeScanned t n.root n.files)).map .ok id := by
  rw [getOrAnalyze_of_ok h]
  unfold Scan.key at hget ⊢
  simp only [getOrAnalyzeScanned, hget]

/-- With nothing kept, the scan is analyzed. -/
theorem AnalysisCache.getOrAnalyze_new (cs : CacheSettings) (t : Tree) (s : ScanSettings)
    (path : Path) : ((new cs).getOrAnalyze t s path).1.map (·.analysis) =
      (t.scan? s path).map fun n => analyzeScanned t n.root n.files := by
  cases h : t.scan? s path with
  | error e =>
    rw [getOrAnalyze_of_error h]
    rfl
  | ok n =>
    rw [getOrAnalyze_of_miss h rfl]
    rfl

end CodeAtlas
