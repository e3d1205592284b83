import CodeAtlas.Proofs.ByteOrder
import CodeAtlas.Proofs.Scan
import Mathlib.Algebra.GroupWithZero.Nat

/-!
# The bytes of a fingerprint

A fingerprint is a digest of bytes, and these bytes say all that it records of a scan. Read
from the left, a path ends at the first zero (`append_zero_inj`), and the time and the size
take eight bytes each, whatever these bytes are (`littleEndianBytes_append_inj`). So the bytes
of one file end where those of the next begin (`fingerprintBytes_append_inj`), and two scans
have the same bytes exactly if they record the same files in the same order
(`scanBytes_eq_iff`).
-/

namespace CodeAtlas.Text

/-- Reading an array from place `i` on, after `read`, ends with all of its bytes. -/
theorem toList_loop (b : ByteArray) (i : Nat) (read : List UInt8) :
    ByteArray.toList.loop b i read = read.reverse ++ b.data.toList.drop i := by
  induction i, read using ByteArray.toList.loop.induct b with
  | case1 i read hi ih =>
    have hdrop : b.data.toList.drop i = b.get! i :: b.data.toList.drop (i + 1) := by
      rw [List.drop_eq_getElem_cons (i := i) (by simpa using hi)]
      simp [ByteArray.get!, hi]
    rw [ByteArray.toList.loop, if_pos hi, ih, hdrop]
    simp
  | case2 i read hi =>
    have hdrop : b.data.toList.drop i = [] := List.drop_of_length_le (by simpa using hi)
    rw [ByteArray.toList.loop, if_neg hi, hdrop, List.append_nil]

theorem toList_toUTF8 (s : String) : s.toUTF8.toList = bytes s := by
  rw [ByteArray.toList, toList_loop]
  rfl

/-- A text is told by its bytes. -/
theorem bytes_inj {s t : String} : bytes s = bytes t ↔ s = t := by
  refine ⟨fun h => ?_, congrArg bytes⟩
  obtain hlt | heq | hgt := Std.lt_trichotomy s t
  · exact absurd (h ▸ lt_iff_bytes_lt.mp hlt) (List.lt_irrefl _)
  · exact heq
  · exact absurd (h ▸ lt_iff_bytes_lt.mp hgt) (List.lt_irrefl _)

/-- What stands before the first zero is told by it. -/
theorem append_zero_inj {p q r r' : List UInt8} (hp : 0 ∉ p) (hq : 0 ∉ q)
    (h : p ++ 0 :: r = q ++ 0 :: r') : p = q ∧ r = r' := by
  induction p generalizing q with
  | nil =>
    cases q with
    | nil => exact ⟨rfl, List.tail_eq_of_cons_eq h⟩
    | cons b q =>
      rw [List.nil_append, List.cons_append] at h
      exact absurd (List.mem_cons.mpr (.inl (List.head_eq_of_cons_eq h))) hq
  | cons a p ih =>
    cases q with
    | nil =>
      rw [List.nil_append, List.cons_append] at h
      exact absurd (List.mem_cons.mpr (.inl (List.head_eq_of_cons_eq h).symm)) hp
    | cons b q =>
      rw [List.cons_append, List.cons_append] at h
      obtain ⟨rfl, hrest⟩ := List.cons_eq_cons.mp h
      obtain ⟨rfl, rfl⟩ := ih (fun hmem => hp (.tail _ hmem)) (fun hmem => hq (.tail _ hmem)) hrest
      exact ⟨rfl, rfl⟩

end CodeAtlas.Text

namespace CodeAtlas.Tree

open CodeAtlas.Text

/-! ## Numbers -/

theorem length_littleEndianBytes (n v : Nat) : (littleEndianBytes n v).length = n := by
  induction n generalizing v with
  | zero => rfl
  | succ n ih => rw [littleEndianBytes, List.length_cons, ih]

/-- The number of which these are the bytes, least first. -/
def ofLittleEndian : List UInt8 → Nat
  | [] => 0
  | b :: bs => b.toNat + 256 * ofLittleEndian bs

theorem ofLittleEndian_littleEndianBytes {n v : Nat} (h : v < 256 ^ n) :
    ofLittleEndian (littleEndianBytes n v) = v := by
  induction n generalizing v with
  | zero =>
    rw [Nat.pow_zero, Nat.lt_one_iff] at h
    exact h.symm
  | succ n ih =>
    have hrest : v / 256 < 256 ^ n := Nat.div_lt_of_lt_mul (by rwa [Nat.pow_succ'] at h)
    have hleast : (v % 256).toUInt8.toNat = v % 256 :=
      UInt8.toNat_ofNat_of_lt' (Nat.mod_lt v (by decide))
    rw [littleEndianBytes, ofLittleEndian, ih hrest, hleast]
    exact Nat.mod_add_div v 256

/-- A number in a fixed number of bytes is told from what follows it. -/
theorem littleEndianBytes_append_inj {n v w : Nat} {r r' : List UInt8} (hv : v < 256 ^ n)
    (hw : w < 256 ^ n) (h : littleEndianBytes n v ++ r = littleEndianBytes n w ++ r') :
    v = w ∧ r = r' := by
  obtain ⟨hbytes, hrest⟩ :=
    List.append_inj h (by rw [length_littleEndianBytes, length_littleEndianBytes])
  refine ⟨?_, hrest⟩
  rw [← ofLittleEndian_littleEndianBytes hv, hbytes, ofLittleEndian_littleEndianBytes hw]

/-! ## Files -/

/-- Whether a file fits into the bytes of a fingerprint : no byte of its path is zero, and its
time and its size are of 64 bits. -/
structure ScannedFile.Recordable (f : ScannedFile) : Prop where
  path : 0 ∉ bytes f.relPath
  changed : f.changed < UInt64.size
  size : f.size < UInt64.size

instance (f : ScannedFile) : Decidable f.Recordable :=
  decidable_of_iff (0 ∉ bytes f.relPath ∧ f.changed < UInt64.size ∧ f.size < UInt64.size)
    ⟨fun ⟨hpath, hchanged, hsize⟩ => ⟨hpath, hchanged, hsize⟩, fun h => ⟨h.path, h.changed, h.size⟩⟩

/-- The bytes of a file are told from what follows them. -/
theorem fingerprintBytes_append_inj {f g : ScannedFile} {r r' : List UInt8} (hf : f.Recordable)
    (hg : g.Recordable)
    (h : fingerprintBytes f.relPath f.changed f.size ++ r =
      fingerprintBytes g.relPath g.changed g.size ++ r') : f.record = g.record ∧ r = r' := by
  simp only [fingerprintBytes, toList_toUTF8, List.append_assoc, List.cons_append] at h
  obtain ⟨hpath, h⟩ := append_zero_inj hf.path hg.path h
  obtain ⟨hchanged, h⟩ := littleEndianBytes_append_inj hf.changed hg.changed h
  obtain ⟨hsize, hrest⟩ := littleEndianBytes_append_inj hf.size hg.size h
  refine ⟨?_, hrest⟩
  rw [ScannedFile.record, bytes_inj.mp hpath, hchanged, hsize, ScannedFile.record]

theorem fingerprintBytes_ne_nil (relPath : String) (changed size : Nat) :
    fingerprintBytes relPath changed size ≠ [] := by
  simp [fingerprintBytes]

/-! ## Scans -/

/-- The bytes of a scan are made of what it records. -/
theorem scanBytes_eq_flatMap (files : List ScannedFile) : scanBytes files =
    (files.map (·.record)).flatMap fun r => fingerprintBytes r.relPath r.changed r.size := by
  rw [List.flatMap_map]
  rfl

/-- What scans record is told by their bytes. -/
theorem records_eq_of_scanBytes_eq {files files' : List ScannedFile}
    (hfiles : ∀ f ∈ files, f.Recordable) (hfiles' : ∀ f ∈ files', f.Recordable)
    (h : scanBytes files = scanBytes files') :
    files.map (·.record) = files'.map (·.record) := by
  induction files generalizing files' with
  | nil =>
    cases files' with
    | nil => rfl
    | cons g files' =>
      exact absurd (List.append_eq_nil_iff.mp h.symm).1 (fingerprintBytes_ne_nil _ _ _)
  | cons f files ih =>
    cases files' with
    | nil => exact absurd (List.append_eq_nil_iff.mp h).1 (fingerprintBytes_ne_nil _ _ _)
    | cons g files' =>
      rw [List.forall_mem_cons] at hfiles hfiles'
      obtain ⟨hrecord, hrest⟩ := fingerprintBytes_append_inj hfiles.1 hfiles'.1 h
      rw [List.map_cons, List.map_cons, hrecord, ih hfiles.2 hfiles'.2 hrest]

/-- Two scans are made into the same bytes exactly if they record the same paths, times and
sizes in the same order. So the bytes change with every file that is added, removed, renamed,
changed or resized. -/
theorem scanBytes_eq_iff (files files' : List ScannedFile) (hfiles : ∀ f ∈ files, f.Recordable)
    (hfiles' : ∀ f ∈ files', f.Recordable) :
    scanBytes files = scanBytes files' ↔ files.map (·.record) = files'.map (·.record) := by
  refine ⟨records_eq_of_scanBytes_eq hfiles hfiles', fun h => ?_⟩
  rw [scanBytes_eq_flatMap, scanBytes_eq_flatMap, h]

/-- A file of a scan of which only the path, the time and the size are given. -/
def recorded (relPath : String) (changed size : Nat) : ScannedFile :=
  { path := relPath, relPath, language := .unknown, module := none, package := none, size, changed,
    oversized := false }

/-- A file whose time and size change places has as many bytes as before, and other ones. -/
theorem scanBytes_time_and_size :
    let files := [recorded "a" 98 0, recorded "c" 0 0]
    let others := [recorded "a" 0 98, recorded "c" 0 0]
    (∀ f ∈ files, f.Recordable) ∧ (∀ f ∈ others, f.Recordable) ∧
      (scanBytes files).length = (scanBytes others).length ∧
      scanBytes files ≠ scanBytes others := by
  intro files others
  have hfiles : ∀ f ∈ files, f.Recordable := by decide +kernel
  have hothers : ∀ f ∈ others, f.Recordable := by decide +kernel
  refine ⟨hfiles, hothers, by decide +kernel, fun h => ?_⟩
  exact absurd ((scanBytes_eq_iff files others hfiles hothers).mp h) (by decide +kernel)

end CodeAtlas.Tree
