import CodeAtlas.Proofs.Analysis
import CodeAtlas.Proofs.CacheHistory

/-!
# One cache for several settings

The key of an analysis has the root and the fingerprint of a scan, and the settings show
in it only by the files that the scan finds. Of two scans that found the same files of one
root, one is the other under another size limit (`files_eq_map_under`), and their analyses
are equal exactly if the limits keep out the same modules (`analyzeScanned_eq_iff`) : the
number of failures of the kind `tooLarge` tells them apart.

So calls with different settings may share a cache exactly if any two of them that find
the same files agree about the modules over the limit (`answers_all_right_iff`). Where
they do not, a call is given what was made under the other limit (`answer_of_same_files`).
-/

namespace CodeAtlas.CacheHistory

open CodeAtlas.Facts CodeAtlas.Source CodeAtlas.Tree

/-! ## The same files under another limit -/

/-- What a scan says of a file under another size limit. -/
def under (limit : Nat) (f : ScannedFile) : ScannedFile :=
  { f with oversized := decide (limit < f.size) }

/-- Whether a file is a module that is over a size limit. -/
def keptOut (limit : Nat) (f : ScannedFile) : Bool := f.module.isSome && decide (limit < f.size)

/-- What tells a file : its path, and what its scan recorded. -/
def sighting (f : ScannedFile) : Path × FileRecord := (f.path, f.record)

/-- Two scans that found the same files of one root. -/
def SameFiles (n n' : Scan) : Prop :=
  n.root = n'.root ∧ n.files.map sighting = n'.files.map sighting

section

variable {t : Tree} {s s' : ScanSettings} {path path' : Path} {n n' : Scan}

/-- A file is told, under another limit, by its path and its record. -/
theorem describeFile_eq_under {root rel rel' : Path} {size size' : Nat} {changed changed' : Int}
    (h : sighting (describeFile s root rel size changed) =
      sighting (describeFile s' root rel' size' changed')) :
    describeFile s' root rel' size' changed' =
      under s'.maxFileSize (describeFile s root rel size changed) := by
  obtain ⟨hpath, hrecord⟩ := Prod.ext_iff.mp h
  obtain rfl : rel = rel' := Path.join_right_inj.mp hpath
  obtain ⟨-, hchanged, rfl⟩ := FileRecord.mk.inj hrecord
  have htime : changed.toNat % UInt64.size = changed'.toNat % UInt64.size := hchanged
  simp only [under, describeFile, htime]

theorem oversized_of_mem_scan (hn : t.scan? s path = .ok n) {f : ScannedFile}
    (hf : f ∈ n.files) : f.oversized = decide (s.maxFileSize < f.size) := by
  obtain ⟨place, -, rfl⟩ := Tree.scan?_eq_ok hn
  obtain ⟨rel, size, changed, rfl⟩ := exists_describeFile_of_mem_scan hf
  rfl

theorem SameFiles.key_eq (h : SameFiles n n') : n.key = n'.key := by
  have hbytes : ∀ files : List ScannedFile, scanBytes files =
      (files.map (·.record)).flatMap fun r => fingerprintBytes r.relPath r.changed r.size :=
    fun files => by rw [List.flatMap_map]; rfl
  have hrecords : n.files.map (·.record) = n'.files.map (·.record) := by
    have hseconds := congrArg (List.map Prod.snd) h.2
    rwa [List.map_map, List.map_map] at hseconds
  rw [Scan.key, Scan.key, fingerprint, fingerprint, hbytes, hbytes, h.1, hrecords]

/-- Scans that found the same files differ in the size limit alone. -/
theorem files_eq_map_under (hn : t.scan? s path = .ok n) (hn' : t.scan? s' path' = .ok n')
    (h : SameFiles n n') : n'.files = n.files.map (under s'.maxFileSize) := by
  obtain ⟨place, -, rfl⟩ := Tree.scan?_eq_ok hn
  obtain ⟨place', -, rfl⟩ := Tree.scan?_eq_ok hn'
  have hroot : t.pathOf place = t.pathOf place' := h.1
  refine (List.forall₂_eq_eq_eq ▸ List.forall₂_map_left_iff.mpr ?_ :
    (t.scan s place).map _ = t.scan s' place').symm
  refine forall₂_of_map_eq h.2 fun f hf g hg hfg => ?_
  obtain ⟨rel, size, changed, rfl⟩ := exists_describeFile_of_mem_scan hf
  obtain ⟨rel', size', changed', rfl⟩ := exists_describeFile_of_mem_scan hg
  rw [← hroot] at hfg ⊢
  exact (describeFile_eq_under hfg).symm

end

/-! ## Analyses under another limit -/

section

variable (t : Tree) (root : Path) (files : List ScannedFile)

/-- If no module changes sides, neither does the analysis. -/
theorem analyzeScanned_map_under {limit : Nat}
    (h : ∀ f ∈ files, f.module.isSome → f.oversized = decide (limit < f.size)) :
    analyzeScanned t root (files.map (under limit)) = analyzeScanned t root files := by
  have hreads : readUnits t (files.map (under limit)) = readUnits t files := by
    rw [readUnits, List.filterMap_map]
    refine List.filterMap_congr fun f hf => ?_
    cases hm : f.module with
    | none => simp [under, hm]
    | some m =>
      have hside := h f hf (by rw [hm, Option.isSome_some])
      simp [under, hm, readUnit, hside]
  have hfacts : (files.map (under limit)).map (·.facts) = files.map (·.facts) := by
    rw [List.map_map]
    rfl
  rw [analyzeScanned, hreads, hfacts]
  rfl

theorem kind_of_mem_failed {units : List SourceUnit} {x : UnitFailure}
    (hx : x ∈ failed units) : x.kind = .parse := by
  obtain ⟨u, -, hu⟩ := List.mem_filterMap.mp hx
  unfold failure? at hu
  split at hu
  · cases hu
  · rw [← Option.some.inj hu]
    rfl

/-- An analysis has one failure of this kind for each module over the limit. -/
theorem countP_tooLarge :
    (analyzeScanned t root files).report.failures.countP (fun x => x.kind = .tooLarge) =
      files.countP fun f => f.module.isSome && f.oversized := by
  have hfailed : ∀ units, (failed units).countP (fun x => x.kind = .tooLarge) = 0 := by
    intro units
    refine List.countP_eq_zero.mpr fun x hx => ?_
    rw [kind_of_mem_failed hx]
    decide
  show (_ ++ (analyze _ _ _).report.failures).countP _ = _
  rw [List.countP_append, failures_analyze, hfailed, Nat.add_zero, List.countP_filterMap,
    readUnits, List.countP_filterMap]
  refine List.countP_congr fun f _ => ?_
  cases f.module with
  | none => simp
  | some m =>
    unfold readUnit
    split <;> rename_i hover
    · simp [hover, UnitFailure.oversized]
    · split
      · simp [hover, UnitFailure.unreadable]
      · split <;> simp [hover, UnitFailure.unreadable]

end

/-- A limit that keeps out as many modules as another keeps out the same ones. -/
theorem keptOut_eq_of_countP_eq {files : List ScannedFile} {limit limit' : Nat}
    (h : files.countP (keptOut limit) = files.countP (keptOut limit')) :
    ∀ f ∈ files, keptOut limit f = keptOut limit' f := by
  wlog hle : limit ≤ limit' generalizing limit limit'
  · exact fun f hf => (this h.symm (Nat.le_of_not_le hle) f hf).symm
  have hsub : (files.filter (keptOut limit')).Sublist (files.filter (keptOut limit)) := by
    refine List.monotone_filter_right files fun f hf => ?_
    simp only [keptOut, Bool.and_eq_true, decide_eq_true_eq] at hf ⊢
    exact ⟨hf.1, Nat.lt_of_le_of_lt hle hf.2⟩
  have heq := hsub.eq_of_length (by rw [← List.countP_eq_length_filter, ← h,
    List.countP_eq_length_filter])
  intro f hf
  have hmem : f ∈ files.filter (keptOut limit) ↔ f ∈ files.filter (keptOut limit') := by
    rw [heq]
  rw [List.mem_filter, List.mem_filter, and_iff_right hf, and_iff_right hf] at hmem
  exact Bool.eq_iff_iff.mpr hmem

section

variable {t : Tree} {s s' : ScanSettings} {path path' : Path} {n n' : Scan}

/-- The analyses of the same files are equal exactly if the limits keep out the same
modules. -/
theorem analyzeScanned_eq_iff (hn : t.scan? s path = .ok n) (hn' : t.scan? s' path' = .ok n')
    (h : SameFiles n n') :
    analyzeScanned t n.root n.files = analyzeScanned t n'.root n'.files ↔
      ∀ f ∈ n.files, keptOut s.maxFileSize f = keptOut s'.maxFileSize f := by
  have hfiles := files_eq_map_under hn hn' h
  constructor
  · intro heq
    refine keptOut_eq_of_countP_eq ?_
    have hcount := congrArg (·.report.failures.countP fun x => x.kind = .tooLarge) heq
    simp only [countP_tooLarge, hfiles, List.countP_map] at hcount
    refine Eq.trans (List.countP_congr fun f hf => ?_) hcount
    rw [keptOut, oversized_of_mem_scan hn hf]
  · intro hsides
    rw [← h.1, hfiles]
    refine (analyzeScanned_map_under t n.root n.files fun f hf hm => ?_).symm
    have hside := hsides f hf
    simp only [keptOut, hm, Bool.true_and] at hside
    rw [oversized_of_mem_scan hn hf, hside]

end

/-! ## Calls that share a cache -/

/-- A call : its settings and the path of its root. -/
structure Call where
  settings : ScanSettings
  path : Path

variable {t : Tree} {used earlier : List Call} {c c' : Call} {n n' : Scan}

/-- The scan that a call makes. -/
def Call.scan? (t : Tree) (c : Call) : Except RootError Scan := t.scan? c.settings c.path

/-- A call as an operation on a cache. -/
def Call.operation (t : Tree) (c : Call) : Operation := .call t c.settings c.path

/-- What a call is given after earlier ones on a new cache, the files staying as they are. -/
def answer (cs : CacheSettings) (t : Tree) (earlier : List Call) (c : Call) :
    Except RootError Analysis :=
  ((serve cs (earlier.map (·.operation t))).cache.getOrAnalyze t c.settings c.path).1.map
    (·.analysis)

/-- Scans that found different files of one root have different fingerprints. -/
def DistinctKeys (t : Tree) (used : List Call) : Prop :=
  ∀ c ∈ used, ∀ c' ∈ used, ∀ n n', c.scan? t = .ok n → c'.scan? t = .ok n' →
    n.key = n'.key → SameFiles n n'

/-- If two calls find the same files, they keep out the same modules for their size. -/
def Agree (t : Tree) (c c' : Call) : Prop :=
  ∀ n n', c.scan? t = .ok n → c'.scan? t = .ok n' → SameFiles n n' →
    ∀ f ∈ n.files, keptOut c.settings.maxFileSize f = keptOut c'.settings.maxFileSize f

/-- An analysis that one of the calls made, under the key of its scan. -/
def MadeBy (t : Tree) (used : List Call) (key : CacheKey) (found : Computed) : Prop :=
  ∃ c ∈ used, ∃ n, c.scan? t = .ok n ∧ n.key = key ∧
    found.analysis = analyzeScanned t n.root n.files

theorem analyzeRepository_eq (t : Tree) (c : Call) :
    analyzeRepository t c.settings c.path c.path =
      (c.scan? t).map fun n => analyzeScanned t n.root n.files := by
  unfold analyzeRepository Call.scan? Tree.scan?
  cases t.rootPlace c.path c.path <;> rfl

/-- A call gets what one of the calls made, and leaves nothing else in the cache. -/
theorem getOrAnalyze_madeBy {cache : AnalysisCache} (h : cache.kept.Fits (MadeBy t used))
    (hc : c ∈ used) (hn : c.scan? t = .ok n) :
    ∃ found after, cache.getOrAnalyze t c.settings c.path = (.ok found, after) ∧
      MadeBy t used n.key found ∧ after.kept.Fits (MadeBy t used) := by
  cases hget : cache.kept.get? n.key with
  | some e =>
    obtain ⟨hfits, -, hfound⟩ := h.get? hget
    exact ⟨e.1, _, AnalysisCache.getOrAnalyze_of_hit hn hget, hfound, hfits⟩
  | none =>
    have hmade : MadeBy t used n.key ⟨cache.made, analyzeScanned t n.root n.files⟩ :=
      ⟨c, hc, n, hn, rfl, rfl⟩
    exact ⟨_, _, AnalysisCache.getOrAnalyze_of_miss hn hget, hmade, h.put hmade⟩

/-- Each call leaves what it found, or what it made. -/
theorem fits_apply {served : Served} (h : served.cache.kept.Fits (MadeBy t used))
    (hc : c ∈ used) : ((c.operation t).apply served).cache.kept.Fits (MadeBy t used) := by
  cases hn : c.scan? t with
  | error e =>
    simp only [Call.operation, Operation.apply, AnalysisCache.getOrAnalyze_of_error hn]
    exact h
  | ok n =>
    obtain ⟨found, after, hcall, -, hfits⟩ := getOrAnalyze_madeBy h hc hn
    simp only [Call.operation, Operation.apply, hcall]
    exact hfits

theorem fits_foldl_apply {served : Served} (h : served.cache.kept.Fits (MadeBy t used))
    (hearlier : earlier ⊆ used) :
    ((earlier.map (·.operation t)).foldl Operation.apply served).cache.kept.Fits
      (MadeBy t used) := by
  induction earlier generalizing served with
  | nil => exact h
  | cons c earlier ih =>
    obtain ⟨hc, hrest⟩ := List.cons_subset.mp hearlier
    exact ih (fits_apply h hc) hrest

/-- After any calls, the cache keeps nothing but what one of them made. -/
theorem fits_serve (cs : CacheSettings) (hearlier : earlier ⊆ used) :
    (serve cs (earlier.map (·.operation t))).cache.kept.Fits (MadeBy t used) :=
  fits_foldl_apply ⟨Nat.zero_le _, fun _ he => nomatch he⟩ hearlier

/-- Every call with a root is given the analysis of a scan that has its key. -/
theorem exists_answer_eq (cs : CacheSettings) (hearlier : earlier ⊆ used) (hc : c ∈ used)
    (hn : c.scan? t = .ok n) : ∃ c' ∈ used, ∃ n', c'.scan? t = .ok n' ∧ n'.key = n.key ∧
      answer cs t earlier c = .ok (analyzeScanned t n'.root n'.files) := by
  obtain ⟨found, after, hcall, ⟨c', hc', n', hn', hkey, hfound⟩, -⟩ :=
    getOrAnalyze_madeBy (fits_serve cs hearlier) hc hn
  refine ⟨c', hc', n', hn', hkey, ?_⟩
  rw [answer, hcall, ← hfound]
  rfl

/-- A call is given what the call just before it made, if that found the same files. -/
theorem answer_of_same_files (cs : CacheSettings) (hn : c.scan? t = .ok n)
    (hn' : c'.scan? t = .ok n') (h : SameFiles n n') :
    answer cs t [c'] c = .ok (analyzeScanned t n'.root n'.files) := by
  have hroom : 0 < (AnalysisCache.new cs).kept.capacity := Nat.le_max_left 1 _
  obtain ⟨kept, hget⟩ := RecentMap.exists_get?_put hroom n'.key
    (⟨0, analyzeScanned t n'.root n'.files⟩ : Computed)
  have hserve : (serve cs [c'.operation t]).cache =
      ((AnalysisCache.new cs).insert n'.key (analyzeScanned t n'.root n'.files)).2 := by
    simp only [serve, List.foldl_cons, List.foldl_nil, Call.operation, Operation.apply,
      AnalysisCache.getOrAnalyze_of_miss (c := .new cs) hn' rfl]
    rfl
  rw [← h.key_eq] at hget hserve
  rw [answer, List.map_singleton, hserve, AnalysisCache.getOrAnalyze_of_hit hn hget]
  rfl

/-! ## When calls may share a cache -/

/-- Calls may share a cache, in whatever order and however often they are made, exactly if
any two of them that find the same files agree about the modules over the limit : then
each is given what an analysis without a cache gives, or the error of its root. -/
theorem answers_all_right_iff (cs : CacheSettings) (t : Tree) (used : List Call)
    (hdistinct : DistinctKeys t used) :
    (∀ earlier ⊆ used, ∀ c ∈ used,
      answer cs t earlier c = analyzeRepository t c.settings c.path c.path) ↔
    ∀ c ∈ used, ∀ c' ∈ used, Agree t c c' := by
  constructor
  · intro hright c hc c' hc' n n' hn hn' hsame
    have hanswer := hright [c'] (List.cons_subset.mpr ⟨hc', List.nil_subset _⟩) c hc
    rw [answer_of_same_files cs hn hn' hsame, analyzeRepository_eq, hn] at hanswer
    exact (analyzeScanned_eq_iff hn hn' hsame).mp (Except.ok.inj hanswer).symm
  · intro hagree earlier hearlier c hc
    rw [analyzeRepository_eq]
    cases hn : c.scan? t with
    | error e =>
      rw [answer, AnalysisCache.getOrAnalyze_of_error hn]
      rfl
    | ok n =>
      obtain ⟨c', hc', n', hn', hkey, hanswer⟩ := exists_answer_eq cs hearlier hc hn
      have hsame := hdistinct c hc c' hc' n n' hn hn' hkey.symm
      have hsides := hagree c hc c' hc' n n' hn hn' hsame
      rw [hanswer, ← (analyzeScanned_eq_iff hn hn' hsame).mpr hsides]
      rfl

/-- A tree with one module, of one byte, in a directory. -/
def oneModule : Tree := ⟨"/r", .directory [("d", .directory [("b.py", .file "x".toUTF8 1)])]⟩

/-- A call there under a size limit, which leaves out directories with certain names. -/
def oneModuleCall (limit : Nat) (ignoreDirs : List String) : Call :=
  ⟨{ ignoreDirs, maxFileSize := limit, respectIgnoreFiles := false }, "/r"⟩

/-- What a scan finds if it does not leave out the directory. -/
def oneModuleScan (limit : Nat) : Scan :=
  ⟨"/r", [describeFile { maxFileSize := limit } "/r" "d/b.py" 1 1]⟩

theorem scan?_oneModule_zero :
    (oneModuleCall 0 []).scan? oneModule = .ok (oneModuleScan 0) :=
  (Tree.scan?_mount (t := oneModule) rfl _).trans (congrArg Except.ok (by decide +kernel))

theorem scan?_oneModule_five :
    (oneModuleCall 5 []).scan? oneModule = .ok (oneModuleScan 5) :=
  (Tree.scan?_mount (t := oneModule) rfl _).trans (congrArg Except.ok (by decide +kernel))

/-- Two limits that the module is not over, a call that does not find it and one that has no
root. -/
theorem answers_all_right_one_module :
    let used := [oneModuleCall 5 [], oneModuleCall 9 [], oneModuleCall 0 ["d"], ⟨{}, "/q"⟩]
    DistinctKeys oneModule used ∧ ∀ earlier ⊆ used, ∀ c ∈ used,
      answer {} oneModule earlier c = analyzeRepository oneModule c.settings c.path c.path := by
  intro used
  have hnine : (oneModuleCall 9 []).scan? oneModule = .ok (oneModuleScan 5) :=
    (Tree.scan?_mount (t := oneModule) rfl _).trans (congrArg Except.ok (by decide +kernel))
  have hleft : (oneModuleCall 0 ["d"]).scan? oneModule = .ok ⟨"/r", []⟩ :=
    (Tree.scan?_mount (t := oneModule) rfl _).trans (congrArg Except.ok (by decide +kernel))
  have hlost : (⟨{}, "/q"⟩ : Call).scan? oneModule = .error (.notFound "/q") := by decide +kernel
  have hscans : ∀ c ∈ used, ∀ n, c.scan? oneModule = .ok n →
      (n = oneModuleScan 5 ∨ n = ⟨"/r", []⟩) ∧
        ∀ f ∈ n.files, keptOut c.settings.maxFileSize f = false := by
    intro c hc n hn
    simp only [used, List.mem_cons, List.not_mem_nil, or_false] at hc
    rcases hc with rfl | rfl | rfl | rfl
    · obtain rfl := Except.ok.inj (scan?_oneModule_five.symm.trans hn)
      exact ⟨.inl rfl, by decide +kernel⟩
    · obtain rfl := Except.ok.inj (hnine.symm.trans hn)
      exact ⟨.inl rfl, by decide +kernel⟩
    · obtain rfl := Except.ok.inj (hleft.symm.trans hn)
      exact ⟨.inr rfl, fun _ hf => nomatch hf⟩
    · cases hlost.symm.trans hn
  have hkey : (oneModuleScan 5).key ≠ Scan.key ⟨"/r", []⟩ := by decide +kernel
  have heq : ∀ c ∈ used, ∀ c' ∈ used, ∀ n n', c.scan? oneModule = .ok n →
      c'.scan? oneModule = .ok n' → n.key = n'.key → n = n' := by
    intro c hc c' hc' n n' hn hn' h
    rcases (hscans c hc n hn).1 with rfl | rfl <;> rcases (hscans c' hc' n' hn').1 with rfl | rfl
    · rfl
    · exact absurd h hkey
    · exact absurd h.symm hkey
    · rfl
  have hdistinct : DistinctKeys oneModule used := by
    intro c hc c' hc' n n' hn hn' h
    rw [heq c hc c' hc' n n' hn hn' h]
    exact ⟨rfl, rfl⟩
  refine ⟨hdistinct, (answers_all_right_iff {} oneModule used hdistinct).mpr ?_⟩
  intro c hc c' hc' n n' hn hn' hsame f hf
  obtain rfl := heq c hc c' hc' n n' hn hn' hsame.key_eq
  rw [(hscans c hc n hn).2 f hf, (hscans c' hc' n hn').2 f hf]

/-- After a call under a limit that the module is over, one that finds the same file is told
that it is too large, though it is not over the limit of that call. -/
theorem answer_wrong_one_module :
    let used := [oneModuleCall 0 [], oneModuleCall 5 []]
    DistinctKeys oneModule used ∧ answer {} oneModule [oneModuleCall 0 []] (oneModuleCall 5 []) ≠
      analyzeRepository oneModule (oneModuleCall 5 []).settings "/r" "/r" := by
  intro used
  have hscans : ∀ c ∈ used, ∀ n, c.scan? oneModule = .ok n →
      n.root = "/r" ∧ n.files.map sighting = [(.ofString "/r/d/b.py", ⟨"d/b.py", 1, 1⟩)] := by
    intro c hc n hn
    simp only [used, List.mem_cons, List.not_mem_nil, or_false] at hc
    rcases hc with rfl | rfl
    · obtain rfl := Except.ok.inj (scan?_oneModule_zero.symm.trans hn)
      exact ⟨rfl, rfl⟩
    · obtain rfl := Except.ok.inj (scan?_oneModule_five.symm.trans hn)
      exact ⟨rfl, rfl⟩
  refine ⟨fun c hc c' hc' n n' hn hn' _ => ?_, fun hanswer => ?_⟩
  · obtain ⟨hroot, hfiles⟩ := hscans c hc n hn
    obtain ⟨hroot', hfiles'⟩ := hscans c' hc' n' hn'
    exact ⟨hroot.trans hroot'.symm, hfiles.trans hfiles'.symm⟩
  · have hsame : SameFiles (oneModuleScan 5) (oneModuleScan 0) := ⟨rfl, rfl⟩
    rw [answer_of_same_files {} scan?_oneModule_five scan?_oneModule_zero hsame] at hanswer
    have hright := analyzeRepository_eq oneModule (oneModuleCall 5 [])
    rw [scan?_oneModule_five] at hright
    have heq := Except.ok.inj (hanswer.trans hright)
    have hsides := (analyzeScanned_eq_iff scan?_oneModule_five scan?_oneModule_zero hsame).mp
      heq.symm
    revert hsides
    decide +kernel

end CodeAtlas.CacheHistory
