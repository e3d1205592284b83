import CodeAtlas.Proofs.PythonFiles
import Mathlib.Data.List.Induction
import Mathlib.Tactic.SplitIfs

/-!
# Files with the same module name

A path is made of its segments, joined by slashes, and a module name of the texts of those
segments that count for it, joined by dots (`moduleName_eq_joined`). Of plain names, which have
none of the bytes that a path or a module name treats in some special way, all count but
`__init__` (`moduleName_path`). So two files share their module name only if their paths have
the same text, or one is the own module of a package and the other stands beside that package
under its name (`moduleName_collides_iff`).

Where names are not UTF-8, different paths may well have the same text
(`moduleName_collides_unreadable`).
-/

namespace CodeAtlas.Path

variable {p s : Path}

/-! ## Paths of Python files -/

/-- The name of a Python file, given what stands before its extension. -/
def withPy (stem : Path) : Path := ⟨stem.bytes ++ (ofString ".py").bytes⟩

/-- The path of a Python file below directories, given its name without the extension. -/
def ofPython (directories : List Path) (stem : Path) : Path := join (directories ++ [withPy stem])

/-- Whether a name can be a segment of a path : it is not empty, has no slash and is not a
single dot. -/
structure IsSegment (s : Path) : Prop where
  ne_empty : s ≠ empty
  ne_dot : s ≠ here
  not_slash : slash ∉ s.bytes

instance (s : Path) : Decidable (IsSegment s) :=
  decidable_of_iff (s ≠ empty ∧ s ≠ here ∧ slash ∉ s.bytes)
    ⟨fun ⟨hempty, hdot, hslash⟩ => ⟨hempty, hdot, hslash⟩,
      fun h => ⟨h.ne_empty, h.ne_dot, h.not_slash⟩⟩

theorem IsSegment.segments_eq (h : IsSegment s) : s.segments = [s] := by
  rw [segments, parts_of_not_mem h.not_slash]
  simp [h.ne_empty, h.ne_dot]

theorem segments_append_cons (xs rest : List UInt8) :
    segments ⟨xs ++ slash :: rest⟩ = segments ⟨xs⟩ ++ segments ⟨rest⟩ := by
  rw [segments, parts_append_cons, List.filter_append]
  rfl

/-- The last segment of a path, whatever stands before it. -/
theorem segments_concat (directories : List Path) {name : Path} (h : IsSegment name) :
    segments (join (directories ++ [name])) = segments (join directories) ++ [name] := by
  by_cases hdirs : directories = []
  · rw [hdirs, List.nil_append, join_singleton, h.segments_eq]
    rfl
  · rw [join_concat hdirs, segments_append_cons, h.segments_eq]

theorem segments_joined {names : List Path} (h : ∀ s ∈ names, IsSegment s) :
    segments (join names) = names := by
  induction names using List.reverseRecOn with
  | nil => rfl
  | append_singleton names s ih =>
    rw [List.forall_mem_append, List.forall_mem_singleton] at h
    rw [segments_concat names h.2, ih h.1]

theorem withPy_eq (stem : Path) : withPy stem = ⟨stem.bytes ++ dot :: (ofString "py").bytes⟩ := rfl

theorem splitExtension_withPy {stem : Path} (h : stem ≠ empty) :
    (withPy stem).splitExtension = (stem, some (ofString "py")) := by
  have hstem : stem.bytes ≠ [] := fun hbytes => h (Path.ext hbytes)
  rw [withPy_eq, splitExtension_append_cons (by decide +kernel), if_neg hstem]

/-- The name of a Python file ends with a letter. -/
theorem withPy_ne {stem : Path} (h : s.bytes.getLast? ≠ some 0x79) : withPy stem ≠ s := by
  rintro rfl
  exact h (by rw [withPy, List.getLast?_append]; rfl)

theorem isSegment_withPy {stem : Path} (h : IsSegment stem) : IsSegment (withPy stem) where
  ne_empty := withPy_ne (by decide)
  ne_dot := withPy_ne (by decide)
  not_slash := by
    rw [withPy, List.mem_append, not_or]
    exact ⟨h.not_slash, by decide +kernel⟩

section

variable {directories : List Path} {stem : Path} (hstem : IsSegment stem)

include hstem

/-- The segments of the path of a Python file, without its extension. -/
theorem stemSegments_ofPython : stemSegments (ofPython directories stem) =
    segments (join directories) ++ [stem] := by
  have hsegments : segments (ofPython directories stem) =
      segments (join directories) ++ [withPy stem] :=
    segments_concat directories (isSegment_withPy hstem)
  have hname : fileName? (ofPython directories stem) = some (withPy stem) := by
    have hne : withPy stem ≠ parent := withPy_ne (by decide)
    rw [fileName?, hsegments, List.getLast?_concat, Option.filter_some,
      if_pos (by simpa using hne)]
  rw [stemSegments, hname]
  simp only [hsegments, List.dropLast_concat, splitExtension_withPy hstem.ne_empty]

theorem stemSegments_ofPython_of_forall (hdirs : ∀ s ∈ directories, IsSegment s) :
    stemSegments (ofPython directories stem) = directories ++ [stem] := by
  rw [stemSegments_ofPython hstem, segments_joined hdirs]

end

/-- Whether one path is that of a module `d/x.py`, and the other that of the package beside it,
`d/x/__init__.py`. -/
def IsBeside (module package : Path) : Prop :=
  ∃ d x, x ≠ ofString "__init__" ∧ module = ofPython d x ∧
    package = ofPython (d ++ [x]) (ofString "__init__")

/-- The own module of a package is in a directory. -/
theorem IsBeside.slash_mem {module package : Path} (h : IsBeside module package) :
    slash ∈ package.bytes := by
  obtain ⟨d, x, -, -, rfl⟩ := h
  rw [ofPython, join_concat (by simp)]
  exact List.mem_append_right _ List.mem_cons_self

/-! ## Their texts -/

theorem text_withPy (stem : Path) : (withPy stem).text = stem.text ++ ".py" := by
  rw [withPy_eq, text_append_cons (by decide), String.append_assoc]
  exact congrArg (stem.text ++ ·) (by decide +kernel)

theorem text_ofPython (directories : List Path) (stem : Path) : (ofPython directories stem).text =
    "/".intercalate (directories.map text ++ [stem.text ++ ".py"]) := by
  rw [ofPython, text_join, List.map_append, List.map_singleton, text_withPy]

/-- The text of a path without its extension. -/
theorem text_ofPython_eq (directories : List Path) (stem : Path) : (ofPython directories stem).text =
    "/".intercalate (directories.map text ++ [stem.text]) ++ ".py" := by
  by_cases h : directories.map text = []
  · rw [text_ofPython, h, List.nil_append, List.nil_append, String.intercalate_singleton,
      String.intercalate_singleton]
  · rw [text_ofPython, String.intercalate_append_of_ne_nil h (by simp),
      String.intercalate_append_of_ne_nil h (by simp), String.intercalate_singleton,
      String.intercalate_singleton, String.append_assoc, String.append_assoc, String.append_assoc]

theorem written_ofPython (directories : List Path) (stem : Path) :
    (ofPython directories stem).written = ofPython (directories.map written) stem.written := by
  have hpy : (withPy stem).written = withPy stem.written := by
    rw [withPy_eq, written_append_cons (by decide), withPy_eq]
    exact congrArg (fun q : Path => mk (stem.written.bytes ++ dot :: q.bytes))
      (written_ofString "py")
  rw [ofPython, written_join, List.map_append, List.map_singleton, hpy, ofPython]

end CodeAtlas.Path

namespace CodeAtlas.Facts

open CodeAtlas.Path

/-! ## Names that are joined -/

/-- A name as it stands in the name of a module. -/
def underscored (s : String) : String := s.map fun c => if c == '-' then '_' else c

theorem toList_underscored (s : String) :
    (underscored s).toList = s.toList.map fun c => if c == '-' then '_' else c :=
  String.toList_map

theorem underscored_joined (names : List String) :
    underscored (".".intercalate names) = ".".intercalate (names.map underscored) := by
  induction names with
  | nil => simp [underscored]
  | cons s names ih =>
    by_cases h : names = []
    · rw [h, String.intercalate_singleton, List.map_singleton, String.intercalate_singleton]
    · rw [String.intercalate_cons_of_ne_nil h, List.map_cons,
        String.intercalate_cons_of_ne_nil (by simpa using h), ← ih, ← String.toList_inj]
      simp [toList_underscored]

/-- The texts of segments that are joined to a module's name. -/
def namedTexts (segments : List Path) : List String :=
  (segments.map text).filter fun s => !unnamedSegments.contains s

theorem namedTexts_append (ps qs : List Path) :
    namedTexts (ps ++ qs) = namedTexts ps ++ namedTexts qs := by
  rw [namedTexts, List.map_append, List.filter_append]
  rfl

theorem namedTexts_singleton (p : Path) :
    namedTexts [p] = if p.text ∈ unnamedSegments then [] else [p.text] := by
  split_ifs with h <;> simp [namedTexts, h]

theorem moduleName_eq_joined (path : Path) :
    moduleName path = ".".intercalate ((namedTexts path.stemSegments).map underscored) :=
  underscored_joined (namedTexts path.stemSegments)

/-! ## Plain names -/

/-- The byte for which a module name has an underscore. -/
def dash : UInt8 := 0x2D

/-- Whether a name has no byte that paths or module names treat in a special way. -/
def isPlain (s : Path) : Bool :=
  !s.bytes.isEmpty && s.bytes.all fun b => b != dot && b != dash && b != slash

theorem not_mem_of_isPlain {s : Path} (h : isPlain s = true) :
    s ≠ .empty ∧ dot ∉ s.bytes ∧ dash ∉ s.bytes ∧ slash ∉ s.bytes := by
  simp only [isPlain, Bool.and_eq_true, Bool.not_eq_true', List.all_eq_true, bne_iff_ne] at h
  refine ⟨fun hs => by simp [hs, Path.empty] at h, fun hb => ?_, fun hb => ?_, fun hb => ?_⟩
  · exact (h.2 _ hb).1.1 rfl
  · exact (h.2 _ hb).1.2 rfl
  · exact (h.2 _ hb).2 rfl

theorem isSegment_of_isPlain {s : Path} (h : isPlain s = true) : IsSegment s where
  ne_empty := (not_mem_of_isPlain h).1
  ne_dot := by
    rintro rfl
    exact (not_mem_of_isPlain h).2.1 (by decide)
  not_slash := (not_mem_of_isPlain h).2.2.2

/-- The text of a plain name has no dot either, and no dash. -/
theorem text_of_isPlain {s : Path} (h : isPlain s = true) :
    s.text ≠ "" ∧ '.' ∉ s.text.toList ∧ '-' ∉ s.text.toList := by
  obtain ⟨hempty, hdot, hdash, -⟩ := not_mem_of_isPlain h
  exact ⟨mt text_eq_empty_iff.mp hempty, mt (Utf8.mem_decode_iff (b := dot) (by decide)).mp hdot,
    mt (Utf8.mem_decode_iff (b := dash) (by decide)).mp hdash⟩

theorem text_eq_init_iff {s : Path} : s.text = "__init__" ↔ s = ofString "__init__" :=
  text_eq_iff (by decide +kernel)

theorem mem_unnamedSegments_iff {s : Path} (h : '.' ∉ s.text.toList) :
    s.text ∈ unnamedSegments ↔ s = ofString "__init__" := by
  have hother {t : String} (ht : '.' ∈ t.toList) : s.text ≠ t := by
    rintro rfl
    exact h ht
  simp [unnamedSegments, hother (t := ".") (by decide), hother (t := "..") (by decide),
    text_eq_init_iff]

/-- The path of a Python file with plain names, below directories that are not called
`__init__`. -/
structure PlainPath where
  directories : List Path
  /-- The name of the file without its extension. -/
  stem : Path
  plain : ∀ s ∈ directories ++ [stem], isPlain s = true
  named : ofString "__init__" ∉ directories

namespace PlainPath

variable (p q : PlainPath)

/-- The path of a module, with its extension. -/
def path : Path := ofPython p.directories p.stem

/-- The segments that count for the module name. -/
def names : List Path :=
  p.directories ++ if p.stem = ofString "__init__" then [] else [p.stem]

theorem isSegment {s : Path} (hs : s ∈ p.directories) : IsSegment s :=
  isSegment_of_isPlain (p.plain s (List.mem_append_left _ hs))

theorem isSegment_stem : IsSegment p.stem :=
  isSegment_of_isPlain (p.plain _ (List.mem_append_right _ (List.mem_singleton_self _)))

theorem stemSegments_path : p.path.stemSegments = p.directories ++ [p.stem] :=
  stemSegments_ofPython_of_forall p.isSegment_stem fun _ => p.isSegment

theorem plain_of_mem_names {s : Path} (hs : s ∈ p.names) : isPlain s = true := by
  refine p.plain s ?_
  rw [names] at hs
  split at hs
  · rw [List.append_nil] at hs
    exact List.mem_append_left _ hs
  · exact hs

theorem namedTexts_stemSegments : namedTexts p.path.stemSegments = p.names.map text := by
  have hnamed {s : Path} (hs : s ∈ p.directories ++ [p.stem]) :
      s.text ∈ unnamedSegments ↔ s = ofString "__init__" :=
    mem_unnamedSegments_iff (text_of_isPlain (p.plain s hs)).2.1
  have hdirs : namedTexts p.directories = p.directories.map text := by
    refine List.filter_eq_self.mpr fun t ht => ?_
    obtain ⟨s, hs, rfl⟩ := List.mem_map.mp ht
    have hne : s ≠ ofString "__init__" := fun h => p.named (h ▸ hs)
    simpa using (hnamed (List.mem_append_left _ hs)).not.mpr hne
  rw [stemSegments_path, namedTexts_append, hdirs, namedTexts_singleton, names, List.map_append,
    if_congr (hnamed (List.mem_append_right _ (List.mem_singleton_self _))) rfl rfl]
  split_ifs <;> rfl

/-- The module name of a plain path is made of the texts of the names that count. -/
theorem moduleName_path : moduleName p.path = ".".intercalate (p.names.map text) := by
  have hsame : ∀ t ∈ p.names.map text, underscored t = id t := by
    intro t ht
    obtain ⟨s, hs, rfl⟩ := List.mem_map.mp ht
    rw [← String.toList_inj, toList_underscored]
    refine (List.map_congr_left fun c hc => ?_).trans (List.map_id _)
    have hdash : c ≠ '-' := by
      rintro rfl
      exact (text_of_isPlain (p.plain_of_mem_names hs)).2.2 hc
    rw [if_neg (by simpa using hdash), id]
  rw [moduleName_eq_joined, namedTexts_stemSegments, List.map_congr_left hsame, List.map_id]

variable {p q}

/-- The texts of the names that count are told by the module name. -/
theorem moduleName_eq_iff :
    moduleName p.path = moduleName q.path ↔ p.names.map text = q.names.map text := by
  have hnames (r : PlainPath) (t : String) (ht : t ∈ r.names.map text) :
      t ≠ "" ∧ '.' ∉ t.toList := by
    obtain ⟨s, hs, rfl⟩ := List.mem_map.mp ht
    have h := text_of_isPlain (r.plain_of_mem_names hs)
    exact ⟨h.1, h.2.1⟩
  rw [moduleName_path, moduleName_path, joined_texts_inj rfl (hnames p) (hnames q)]

/-- The texts of the segments are told by the text of a path. -/
theorem map_text_eq_of_text_eq {directories : List Path} {stem : Path}
    (hsegments : ∀ s ∈ directories ++ [stem], IsSegment s)
    (h : p.path.text = (ofPython directories stem).text) :
    p.directories.map text = directories.map text ∧ p.stem.text = stem.text := by
  have hwritten := congrArg stemSegments (written_inj.mpr h)
  rw [List.forall_mem_append, List.forall_mem_singleton] at hsegments
  rw [stemSegments_written, stemSegments_written, stemSegments_path,
    stemSegments_ofPython_of_forall hsegments.2 hsegments.1] at hwritten
  have htexts := congrArg (List.map text) hwritten
  simp only [List.map_map, Function.comp_def, text_written, List.map_append,
    List.map_singleton] at htexts
  exact List.append_singleton_inj.mp htexts

theorem text_path_eq_iff : p.path.text = q.path.text ↔
    p.directories.map text = q.directories.map text ∧ p.stem.text = q.stem.text := by
  refine ⟨map_text_eq_of_text_eq fun s hs => isSegment_of_isPlain (q.plain s hs), ?_⟩
  rintro ⟨hdirs, hstem⟩
  rw [path, path, text_ofPython, text_ofPython, hdirs, hstem]

/-- Whether, by their texts, the file is the own module of the package that stands beside `q`
under its name. -/
def IsPackageOf (p q : PlainPath) : Prop :=
  p.stem = ofString "__init__" ∧
    p.directories.map text = q.directories.map text ++ [q.stem.text]

theorem IsPackageOf.stem_ne (h : p.IsPackageOf q) : q.stem ≠ ofString "__init__" := by
  intro hstem
  have hmem : q.stem.text ∈ p.directories.map text := by
    rw [h.2]
    exact List.mem_append_right _ (List.mem_singleton_self _)
  obtain ⟨s, hs, htext⟩ := List.mem_map.mp hmem
  rw [hstem, text_ofString, text_eq_init_iff] at htext
  exact p.named (htext ▸ hs)

theorem names_eq_iff : p.names.map text = q.names.map text ↔
    p.path.text = q.path.text ∨ p.IsPackageOf q ∨ q.IsPackageOf p := by
  rw [text_path_eq_iff]
  constructor
  · intro hnames
    unfold names at hnames
    rw [List.map_append, List.map_append] at hnames
    split_ifs at hnames with hp hq hq
    · rw [List.map_nil, List.append_nil, List.append_nil] at hnames
      exact .inl ⟨hnames, by rw [hp, hq]⟩
    · rw [List.map_nil, List.append_nil] at hnames
      exact .inr (.inl ⟨hp, hnames⟩)
    · rw [List.map_nil, List.append_nil] at hnames
      exact .inr (.inr ⟨hq, hnames.symm⟩)
    · exact .inl (List.append_singleton_inj.mp hnames)
  · rintro (⟨hdirs, hstem⟩ | hown | hown)
    · have hinit : p.stem = ofString "__init__" ↔ q.stem = ofString "__init__" := by
        rw [← text_eq_init_iff, ← text_eq_init_iff, hstem]
      rw [names, names, List.map_append, List.map_append, hdirs, if_congr hinit rfl rfl]
      split_ifs
      · rfl
      · rw [List.map_singleton, hstem, List.map_singleton]
    · rw [names, if_pos hown.1, List.append_nil, names, if_neg hown.stem_ne, hown.2,
        List.map_append, List.map_singleton]
    · rw [names, if_neg hown.stem_ne, names, if_pos hown.1, List.append_nil, hown.2,
        List.map_append, List.map_singleton]

/-- The two files of a package and beside it, by the texts of their paths. -/
theorem isPackageOf_iff : p.IsPackageOf q ↔ IsBeside q.path.written p.path.written := by
  constructor
  · intro h
    refine ⟨q.directories.map written, q.stem.written, ?_, written_ofPython .., ?_⟩
    · exact (written_eq_iff (by decide +kernel)).not.mpr h.stem_ne
    · have hdirs := congrArg (List.map ofString) h.2
      rw [List.map_map, List.map_append, List.map_map, List.map_singleton] at hdirs
      rw [path, written_ofPython, h.1, written_ofString]
      exact congrArg (ofPython · _) hdirs
  · rintro ⟨d, x, -, hq, hp⟩
    have hq := congrArg text hq
    have hp := congrArg text hp
    rw [text_written] at hq hp
    -- without its extension, the path of `q` is that of the package, whatever `d` and `x` are
    rw [path, text_ofPython_eq, text_ofPython_eq, String.append_left_inj] at hq
    have hpackage : p.path.text =
        (ofPython (q.directories ++ [q.stem]) (ofString "__init__")).text := by
      rw [hp, text_ofPython, List.map_append, List.map_singleton,
        String.intercalate_append_of_ne_nil (by simp) (by simp), ← hq,
        ← String.intercalate_append_of_ne_nil (by simp) (by simp), text_ofPython, List.map_append,
        List.map_singleton]
    have hsegments : ∀ s ∈ q.directories ++ [q.stem] ++ [ofString "__init__"], IsSegment s := by
      rw [List.forall_mem_append, List.forall_mem_singleton]
      exact ⟨fun s hs => isSegment_of_isPlain (q.plain s hs), by decide +kernel⟩
    obtain ⟨hdirs, hstem⟩ := map_text_eq_of_text_eq hsegments hpackage
    rw [List.map_append, List.map_singleton] at hdirs
    rw [text_ofString, text_eq_init_iff] at hstem
    exact ⟨hstem, hdirs⟩

end PlainPath

/-- Files with plain names have the same module name exactly if the texts of their paths are the
same, or one of these is `d/x.py` and the other `d/x/__init__.py`. Of two different paths that
are texts, one is `d/x.py` and the other `d/x/__init__.py`. -/
theorem moduleName_collides_iff (p q : PlainPath) :
    (moduleName p.path = moduleName q.path ↔ p.path.text = q.path.text ∨
      IsBeside p.path.written q.path.written ∨ IsBeside q.path.written p.path.written) ∧
    (p.path.text?.isSome → q.path.text?.isSome → p.path ≠ q.path →
      (moduleName p.path = moduleName q.path ↔
        IsBeside p.path q.path ∨ IsBeside q.path p.path)) := by
  have hiff : moduleName p.path = moduleName q.path ↔ p.path.text = q.path.text ∨
      IsBeside p.path.written q.path.written ∨ IsBeside q.path.written p.path.written := by
    rw [PlainPath.moduleName_eq_iff, PlainPath.names_eq_iff, PlainPath.isPackageOf_iff,
      PlainPath.isPackageOf_iff, or_comm (a := IsBeside q.path.written p.path.written)]
  refine ⟨hiff, fun hp hq hne => ?_⟩
  obtain ⟨s, hs⟩ := Option.isSome_iff_exists.mp hp
  obtain ⟨t, ht⟩ := Option.isSome_iff_exists.mp hq
  rw [text?_eq_some_iff] at hs ht
  have htext : p.path.text ≠ q.path.text := by
    rw [hs, ht, text_ofString, text_ofString]
    rintro rfl
    exact hne (hs.trans ht.symm)
  rw [hiff, or_iff_right htext, hs, ht, written_ofString, written_ofString]

/-- A module beside the package of its name. -/
def besidePackage : PlainPath :=
  ⟨[ofString "a"], ofString "b", by decide +kernel, by decide +kernel⟩

/-- The own module of that package. -/
def inPackage : PlainPath :=
  ⟨[ofString "a", ofString "b"], ofString "__init__", by decide +kernel, by decide +kernel⟩

theorem moduleName_collides_package :
    besidePackage.path = ofString "a/b.py" ∧ inPackage.path = ofString "a/b/__init__.py" ∧
      besidePackage.path ≠ inPackage.path ∧
      moduleName besidePackage.path = moduleName inPackage.path := by
  have hbeside : besidePackage.path = ofString "a/b.py" := by decide +kernel
  have hin : inPackage.path = ofString "a/b/__init__.py" := by decide +kernel
  have hne : besidePackage.path ≠ inPackage.path := by
    rw [hbeside, hin]
    decide +kernel
  refine ⟨hbeside, hin, hne, ?_⟩
  refine ((moduleName_collides_iff _ _).2 ?_ ?_ hne).mpr
    (.inl ⟨[ofString "a"], ofString "b", by decide +kernel, rfl, rfl⟩)
  · rw [hbeside, text?_eq_some_iff.mpr rfl]
    rfl
  · rw [hin, text?_eq_some_iff.mpr rfl]
    rfl

/-- A file whose name has a byte that is not UTF-8. -/
def unreadable (b : UInt8) (h : isPlain ⟨[0x61, b]⟩ = true) : PlainPath :=
  ⟨[], ⟨[0x61, b]⟩, by simpa using h, List.not_mem_nil⟩

/-- Two files in one directory have the same module name, if their names differ in bytes that
are not UTF-8. -/
theorem moduleName_collides_unreadable :
    ∃ p q : PlainPath, p.path ≠ q.path ∧ moduleName p.path = moduleName q.path ∧
      ¬ (IsBeside p.path q.path ∨ IsBeside q.path p.path) := by
  refine ⟨unreadable 0xFF (by decide), unreadable 0xFE (by decide), by decide +kernel,
    by decide +kernel, ?_⟩
  rintro (h | h) <;> exact absurd h.slash_mem (by decide +kernel)

end CodeAtlas.Facts
