import CodeAtlas.Facts.Language
import CodeAtlas.Facts.Name
import CodeAtlas.Proofs.DecodedBytes
import CodeAtlas.Proofs.JoinedNames

/-!
# The text of a path

Different paths may have the same text, so that a path is not told by it. But slashes and dots
are ASCII, and stay where they are when a path is read as a text. So the path that is written as
the text of a path (`written`) has the same segments and the same extension, each read as a text
(`segments_written`, `splitExtension_written`), and the name of the module and the language of a
file are those of its text (`moduleName_written`, `ofPath_written`).
-/

namespace CodeAtlas.Path

open CodeAtlas.Text

variable {p q r : Path} {s t : String}

theorem bytes_ofString (s : String) : (ofString s).bytes = Text.bytes s := rfl

@[simp] theorem text_ofString (s : String) : (ofString s).text = s := Utf8.decode_bytes s

theorem ofString_inj : ofString s = ofString t ↔ s = t := by
  refine ⟨fun h => ?_, congrArg _⟩
  rw [← text_ofString s, h, text_ofString]

/-- The paths that have a text of their own are those of texts. -/
theorem text?_eq_some_iff : p.text? = some s ↔ p = ofString s := by
  rw [text?]
  constructor
  · intro h
    split_ifs at h with hp
    rw [← hp, Option.some.inj h]
  · rintro rfl
    rw [text_ofString, if_pos rfl]

/-- An ASCII text is the text of one path only. -/
theorem text_eq_iff (hs : Utf8.isAscii s = true) : p.text = s ↔ p = ofString s := by
  rw [text, Utf8.decode_eq_iff hs]
  exact (Path.ext_iff (y := ofString s)).symm

/-! ## The path of a text -/

/-- The path that is written as the text of a path. -/
def written (p : Path) : Path := ofString p.text

@[simp] theorem text_written (p : Path) : p.written.text = p.text := text_ofString _

@[simp] theorem written_ofString (s : String) : (ofString s).written = ofString s := by
  rw [written, text_ofString]

theorem written_inj : p.written = q.written ↔ p.text = q.text := ofString_inj

theorem written_eq_iff (hs : Utf8.isAscii s = true) :
    p.written = ofString s ↔ p = ofString s := by
  rw [written, ofString_inj, text_eq_iff hs]

section

variable {b : UInt8} (hb : b < 0x80)

include hb

theorem mem_bytes_written_iff : b ∈ p.written.bytes ↔ b ∈ p.bytes := by
  rw [← Utf8.mem_decode_iff hb, ← text, text_written, text, Utf8.mem_decode_iff hb]

theorem text_append_cons (xs rest : List UInt8) :
    text ⟨xs ++ b :: rest⟩ = text ⟨xs⟩ ++ String.singleton (Utf8.asciiChar b) ++ text ⟨rest⟩ :=
  Utf8.decode_append_cons hb xs rest

/-- An ASCII byte of a path stays where it is. -/
theorem written_append_cons (xs rest : List UInt8) :
    written ⟨xs ++ b :: rest⟩ = ⟨(written ⟨xs⟩).bytes ++ b :: (written ⟨rest⟩).bytes⟩ := by
  refine Path.ext ?_
  rw [written, text_append_cons hb, bytes_ofString, bytes_append, bytes_append,
    Utf8.bytes_asciiChar hb, List.append_assoc]
  rfl

end

/-- A path is split at a slash. -/
theorem parts_append_cons (xs rest : List UInt8) :
    parts ⟨xs ++ slash :: rest⟩ = parts ⟨xs⟩ ++ parts ⟨rest⟩ := by
  rw [parts, splitAtEach_append_cons, List.map_append]
  rfl

theorem parts_of_not_mem (h : slash ∉ p.bytes) : p.parts = [p] := by
  rw [parts, splitAtEach_of_not_mem h]
  rfl

theorem parts_written (p : Path) : p.written.parts = p.parts.map written := by
  obtain ⟨xs⟩ := p
  induction hn : xs.length using Nat.strongRecOn generalizing xs with
  | _ n ih =>
    by_cases h : slash ∈ xs
    · obtain ⟨before, after, rfl⟩ := List.append_of_mem h
      rw [List.length_append, List.length_cons] at hn
      rw [written_append_cons (by decide), parts_append_cons, parts_append_cons, List.map_append,
        ← ih before.length (by omega) before rfl, ← ih after.length (by omega) after rfl]
    · rw [parts_of_not_mem h, parts_of_not_mem ((mem_bytes_written_iff (by decide)).not.mpr h)]
      rfl

theorem segments_written (p : Path) : p.written.segments = p.segments.map written := by
  have hempty (s : Path) : s.written = empty ↔ s = empty := written_eq_iff (s := "") (by decide)
  have hhere (s : Path) : s.written = here ↔ s = here := written_eq_iff (s := ".") (by decide)
  rw [segments, segments, parts_written, List.filter_map]
  congr 1
  refine List.filter_congr fun s _ => ?_
  simp [hempty, hhere, bne, Bool.beq_eq_decide_eq]

/-! ## Extensions -/

theorem splitExtension_of_not_mem (h : dot ∉ p.bytes) : p.splitExtension = (p, none) := by
  have hdrop : p.bytes.reverse.dropWhile (· != dot) = [] := by
    rw [← List.append_nil p.bytes.reverse, List.dropWhile_append_of_pos (bne_of_mem_reverse h)]
    rfl
  simp [splitExtension, hdrop]

/-- A name is split at its last dot, if something stands before it. -/
theorem splitExtension_append_cons {stem ext : List UInt8} (h : dot ∉ ext) :
    splitExtension ⟨stem ++ dot :: ext⟩ =
      if stem = [] then (⟨stem ++ dot :: ext⟩, none) else (⟨stem⟩, some ⟨ext⟩) := by
  have hreverse : (stem ++ dot :: ext).reverse = ext.reverse ++ dot :: stem.reverse := by simp
  simp [splitExtension, hreverse, List.takeWhile_append_of_pos (bne_of_mem_reverse h),
    List.dropWhile_append_of_pos (bne_of_mem_reverse h)]

theorem exists_last_dot {bs : List UInt8} (h : dot ∈ bs) :
    ∃ stem ext, bs = stem ++ dot :: ext ∧ dot ∉ ext := by
  obtain ⟨after, before, hreverse, hafter⟩ :=
    List.eq_append_cons_of_mem (List.mem_reverse.mpr h)
  refine ⟨before.reverse, after.reverse, ?_, by simpa using hafter⟩
  rw [← List.reverse_reverse bs, hreverse]
  simp

theorem splitExtension_written (name : Path) : name.written.splitExtension =
    name.splitExtension.map written (Option.map written) := by
  obtain ⟨bs⟩ := name
  by_cases h : dot ∈ bs
  · obtain ⟨stem, ext, rfl, hext⟩ := exists_last_dot h
    have hwritten := written_append_cons (b := dot) (by decide) stem ext
    have hstem : (written ⟨stem⟩).bytes = [] ↔ stem = [] := by
      have hempty := written_eq_iff (p := ⟨stem⟩) (s := "") (by decide)
      rwa [Path.ext_iff, Path.ext_iff] at hempty
    rw [splitExtension_append_cons hext, hwritten,
      splitExtension_append_cons ((mem_bytes_written_iff (by decide)).not.mpr hext),
      if_congr hstem rfl rfl, ← hwritten]
    split_ifs <;> rfl
  · rw [splitExtension_of_not_mem h,
      splitExtension_of_not_mem ((mem_bytes_written_iff (by decide)).not.mpr h)]
    rfl

/-! ## File names -/

theorem fileName?_written (p : Path) : p.written.fileName? = p.fileName?.map written := by
  have hparent (s : Path) : (s.written != parent) = (s != parent) := by
    have h : s.written = parent ↔ s = parent := written_eq_iff (s := "..") (by decide)
    simp [h, bne, Bool.beq_eq_decide_eq]
  rw [fileName?, fileName?, segments_written, List.getLast?_map, Option.filter_map]
  simp only [Function.comp_def, hparent]

theorem extension?_written (p : Path) : p.written.extension? = p.extension?.map written := by
  rw [extension?, extension?, fileName?_written]
  cases p.fileName? with
  | none => rfl
  | some name => exact congrArg Prod.snd (splitExtension_written name)

theorem stemSegments_written (p : Path) : p.written.stemSegments = p.stemSegments.map written := by
  rw [stemSegments, stemSegments, fileName?_written, segments_written]
  cases p.fileName? with
  | none => rfl
  | some name =>
    have hstem := congrArg Prod.fst (splitExtension_written name)
    simp only [Option.map_some, List.map_append, List.map_dropLast, List.map_singleton]
    rw [hstem]
    rfl

@[simp] theorem join_singleton (p : Path) : join [p] = p := by
  rw [join, List.map_singleton, List.intercalate_singleton]

theorem join_cons {ps : List Path} (h : ps ≠ []) (p : Path) :
    join (p :: ps) = ⟨p.bytes ++ slash :: (join ps).bytes⟩ := by
  rw [join, List.map_cons, List.intercalate_cons_of_ne_nil (by simpa using h), List.append_assoc]
  rfl

/-- Names that are not empty and have no slash are told by the path that they make. -/
theorem join_inj {ps qs : List Path} (hps : ∀ s ∈ ps, s ≠ empty ∧ slash ∉ s.bytes)
    (hqs : ∀ s ∈ qs, s ≠ empty ∧ slash ∉ s.bytes) : join ps = join qs ↔ ps = qs := by
  have hbytes {rs : List Path} (hrs : ∀ s ∈ rs, s ≠ empty ∧ slash ∉ s.bytes) :
      ∀ bs ∈ rs.map bytes, bs ≠ [] ∧ slash ∉ bs := by
    intro bs hbs
    obtain ⟨s, hs, rfl⟩ := List.mem_map.mp hbs
    exact ⟨fun hnil => (hrs s hs).1 (Path.ext hnil), (hrs s hs).2⟩
  rw [join, join, Path.mk.injEq, joined_inj (hbytes hps) (hbytes hqs)]
  exact (List.map_injective_iff.mpr fun _ _ => Path.ext).eq_iff

theorem join_right_inj : join [p, q] = join [p, r] ↔ q = r := by
  have hpair (q : Path) : join [p, q] = ⟨p.bytes ++ slash :: q.bytes⟩ := by
    rw [join_cons (List.cons_ne_nil _ _), join_singleton]
  rw [hpair, hpair, Path.mk.injEq, List.append_cancel_left_eq, List.cons.injEq, and_iff_right rfl,
    Path.ext_iff]

theorem join_concat {ps : List Path} (h : ps ≠ []) (p : Path) :
    join (ps ++ [p]) = ⟨(join ps).bytes ++ slash :: p.bytes⟩ := by
  induction ps with
  | nil => exact absurd rfl h
  | cons q ps ih =>
    rw [List.cons_append, join_cons (by simp)]
    by_cases hps : ps = []
    · rw [hps, List.nil_append, join_singleton, join_singleton]
    · rw [ih hps, join_cons hps, List.append_assoc]
      rfl

theorem written_join (ps : List Path) : (join ps).written = join (ps.map written) := by
  induction ps with
  | nil => rfl
  | cons p ps ih =>
    by_cases hps : ps = []
    · rw [hps, List.map_singleton, join_singleton, join_singleton]
    · rw [join_cons hps, written_append_cons (by decide), List.map_cons,
        join_cons (by simpa using hps), ← ih]

/-- The text of joined paths. -/
theorem text_join (ps : List Path) : (join ps).text = "/".intercalate (ps.map text) := by
  induction ps with
  | nil => rfl
  | cons p ps ih =>
    by_cases hps : ps = []
    · rw [hps, List.map_singleton, String.intercalate_singleton, join_singleton]
    · rw [join_cons hps, text_append_cons (by decide), List.map_cons,
        String.intercalate_cons_of_ne_nil (by simpa using hps), ← ih]
      rfl

end CodeAtlas.Path

namespace CodeAtlas.Facts

open CodeAtlas.Path

/-- The name of a module is told by the text of its path. -/
theorem moduleName_written (p : Path) : moduleName p.written = moduleName p := by
  have htexts : p.written.stemSegments.map text = p.stemSegments.map text := by
    rw [stemSegments_written, List.map_map]
    exact List.map_congr_left fun s _ => text_written s
  unfold moduleName
  rw [htexts]

theorem toNat_lt_of_toLower {c : Char} (h : c.toLower.toNat < 0x80) : c.toNat < 0x80 := by
  unfold Char.toLower at h
  split at h
  · rename_i hupper
    have hle : c.toNat ≤ 'Z'.toNat := UInt32.le_iff_toNat_le.mp hupper.2
    exact Nat.lt_of_le_of_lt hle (by decide)
  · exact h

/-- A text that tells a language is ASCII, in whatever case its letters are. -/
theorem isAscii_of_ofExtension_ne {ext : String} (h : Language.ofExtension ext ≠ .unknown) :
    Utf8.isAscii ext = true := by
  have hkeys : (Language.extensions.all fun e => Utf8.isAscii e.1) = true := by decide
  unfold Language.ofExtension at h
  cases hlookup : Language.extensions.lookup (String.ofList (ext.toList.map Char.toLower)) with
  | none => exact absurd (by rw [hlookup]; rfl) h
  | some language =>
    obtain ⟨before, after, hextensions, -⟩ := List.lookup_eq_some_iff.mp hlookup
    rw [hextensions, List.all_append, List.all_cons, Bool.and_eq_true, Bool.and_eq_true] at hkeys
    refine Utf8.isAscii_iff.mpr fun c hc => toNat_lt_of_toLower ?_
    refine Utf8.isAscii_iff.mp hkeys.2.1 _ ?_
    rw [String.toList_ofList]
    exact List.mem_map_of_mem hc

/-- The language of a file is told by the text of its path. -/
theorem ofPath_written (p : Path) : Language.ofPath p.written = Language.ofPath p := by
  rw [Language.ofPath, Language.ofPath, extension?_written]
  cases p.extension? with
  | none => rfl
  | some ext =>
    have hwritten : text? ext.written = some ext.text := text?_eq_some_iff.mpr rfl
    simp only [Option.map_some, Option.bind_some, hwritten, Option.getD_some]
    by_cases hext : ext = ofString ext.text
    · rw [text?_eq_some_iff.mpr hext, Option.getD_some]
    · have hnone : text? ext = none := if_neg fun h => hext h.symm
      have hunknown : Language.ofExtension ext.text = .unknown := by
        by_contra hne
        exact hext ((text_eq_iff (isAscii_of_ofExtension_ne hne)).mp rfl)
      rw [hnone, hunknown]
      rfl

end CodeAtlas.Facts
