import CodeAtlas.Proofs.ByteOrder
import CodeAtlas.Text.Utf8

/-!
# The text of bytes

Bytes are read as text one by one, and what is open between two of them can only become a
character outside ASCII (`Opened.Fits`). So an ASCII byte stands for its character wherever it
is, and ends whatever was open before it (`decodeFrom_append_cons`); and an ASCII character is
read from its byte only (`mem_of_mem_decodeFrom`). A text that is all ASCII is therefore the
text of no other bytes (`decode_eq_iff`), as it can well be for other texts.

The bytes of a text read as that text (`decode_bytes`).
-/

namespace CodeAtlas.Utf8

open CodeAtlas.Text

/-! ## Characters -/

/-- The ASCII character of a byte. -/
def asciiChar (b : UInt8) : Char := Char.ofNat b.toNat

theorem toNat_asciiChar {b : UInt8} (h : b < 0x80) : (asciiChar b).toNat = b.toNat := by
  have hb : b.toNat < 0x80 := UInt8.lt_iff_toNat_lt.mp h
  have hvalid : b.toNat.isValidChar := .inl (by omega)
  rw [asciiChar, Char.ofNat, dif_pos hvalid]
  exact UInt32.toNat_ofNatLT ..

theorem asciiChar_inj {b c : UInt8} (hb : b < 0x80) (hc : c < 0x80) :
    asciiChar b = asciiChar c ↔ b = c := by
  rw [← Char.toNat_inj, toNat_asciiChar hb, toNat_asciiChar hc, UInt8.toNat_inj]

theorem le_toNat_replacement : 0x80 ≤ replacement.toNat := by decide

/-! ## What is open -/

/-- Whether bytes within the bounds, and no ASCII ones, complete the bits of a character to one
outside ASCII. -/
def Completes : Nat → List Bounds → Prop
  | value, [] => 0x80 ≤ value ∧ value.isValidChar
  | value, (low, high) :: others =>
    0x80 ≤ low ∧ ∀ b, low ≤ b → b ≤ high → Completes (value * 64 + (b.toNat - 0x80)) others

/-- Whether nothing is open, or a character that will be outside ASCII. -/
def Opened.Fits (o : Opened) : Prop := o.bounds = [] ∨ Completes o.value o.bounds

section

variable {value : Nat}

theorem le_toNat_of_completes (h : Completes value []) : 0x80 ≤ (Char.ofNat value).toNat := by
  rw [Char.ofNat, dif_pos h.2]
  exact Nat.le_trans h.1 (Nat.le_of_eq (UInt32.toNat_ofNatLT ..).symm)

theorem completes_cons {low high : UInt8} {others : List Bounds} (hlow : 0x80 ≤ low)
    (h : ∀ k, low.toNat ≤ k + 0x80 → k + 0x80 ≤ high.toNat → Completes (value * 64 + k) others) :
    Completes value ((low, high) :: others) := by
  refine ⟨hlow, fun b hb hb' => ?_⟩
  have hascii : 0x80 ≤ b.toNat := UInt8.le_iff_toNat_le.mp (UInt8.le_trans hlow hb)
  have hsame : b.toNat - 0x80 + 0x80 = b.toNat := Nat.sub_add_cancel hascii
  refine h _ ?_ ?_ <;> rw [hsame]
  · exact UInt8.le_iff_toNat_le.mp hb
  · exact UInt8.le_iff_toNat_le.mp hb'

/-- With one byte to come, the bits are neither those of an ASCII character nor of a surrogate. -/
theorem completes_one (h : 2 ≤ value) (h' : value < 0x360 ∨ 0x380 ≤ value ∧ value < 0x4400) :
    Completes value [continuation] := by
  refine completes_cons (by decide) fun k _ hk => ?_
  have hk : k + 0x80 ≤ 0xBF := hk
  show 0x80 ≤ _ ∧ (_ < 0xD800 ∨ 0xDFFF < _ ∧ _ < 0x110000)
  omega

theorem completes_two (h : 1 ≤ value) (h' : value < 0xD ∨ 0xE ≤ value ∧ value < 0x110) :
    Completes value [continuation, continuation] := by
  refine completes_cons (by decide) fun k _ hk => ?_
  have hk : k + 0x80 ≤ 0xBF := hk
  exact completes_one (by omega) (by omega)

end

/-- The first byte of a longer character leaves it to be outside ASCII. -/
theorem completes_of_lead? {b : UInt8} {o : Opened} (h : lead? b = some o) (hne : o.bounds ≠ []) :
    Completes o.value o.bounds := by
  unfold lead? at h
  dsimp only at h
  generalize b.toNat = n at h
  split at h
  · exact absurd (congrArg Opened.bounds (Option.some.inj h)).symm hne
  split at h
  · cases h
  split at h
  · obtain rfl := Option.some.inj h
    exact completes_one (show 2 ≤ n - 0xC0 by omega) (by dsimp only; omega)
  split at h
  · obtain rfl := Option.some.inj h
    refine completes_cons (by split_ifs <;> decide) fun k hk hk' => ?_
    have hfirst : n = 0xE0 → 0xA0 ≤ k + 0x80 := fun hn => by rwa [if_pos hn] at hk
    have hlast : k + 0x80 ≤ 0xBF := Nat.le_trans hk' (by split_ifs <;> decide)
    have hsurrogate : n = 0xED → k + 0x80 ≤ 0x9F := fun hn => by rwa [if_pos hn] at hk'
    exact completes_one (by dsimp only; omega) (by dsimp only; omega)
  split at h
  · obtain rfl := Option.some.inj h
    refine completes_cons (by split_ifs <;> decide) fun k hk hk' => ?_
    have hfirst : n = 0xF0 → 0x90 ≤ k + 0x80 := fun hn => by rwa [if_pos hn] at hk
    have hlast : k + 0x80 ≤ 0xBF := Nat.le_trans hk' (by split_ifs <;> decide)
    have hlargest : n = 0xF4 → k + 0x80 ≤ 0x8F := fun hn => by rwa [if_pos hn] at hk'
    exact completes_two (by dsimp only; omega) (by dsimp only; omega)
  · cases h

theorem fits_nothing : Opened.nothing.Fits := .inl rfl

theorem fits_begin (b : UInt8) : (begin b).2.Fits := by
  unfold begin
  split
  · exact fits_nothing
  · exact fits_nothing
  · rename_i o hne ho
    exact .inr (completes_of_lead? ho fun hbounds =>
      hne o.value (congrArg (Opened.mk o.value) hbounds))

namespace Opened

variable {o : Opened}

theorem Fits.completes {bound : Bounds} {others : List Bounds} (h : o.Fits)
    (hbounds : o.bounds = bound :: others) : Completes o.value (bound :: others) := by
  rw [← hbounds]
  exact h.resolve_left (hbounds ▸ List.cons_ne_nil _ _)

/-- After a byte it is again a character outside ASCII that is open, if any. -/
theorem Fits.next (h : o.Fits) (b : UInt8) : (o.next b).2.Fits := by
  unfold Opened.next
  split
  · exact fits_begin b
  · rename_i low high others hbounds
    split_ifs with hb hothers
    · exact fits_nothing
    · exact .inr ((h.completes hbounds).2 b hb.1 hb.2)
    · exact fits_begin b

/-- An ASCII byte is its character, and ends what is open as the end of the bytes does. -/
theorem Fits.next_of_ascii (h : o.Fits) {b : UInt8} (hb : b < 0x80) :
    o.next b = (decodeFrom o [] ++ [asciiChar b], nothing) := by
  have hbegin : begin b = ([asciiChar b], nothing) := by
    have hlead : lead? b = some ⟨b.toNat, []⟩ := if_pos (UInt8.lt_iff_toNat_lt.mp hb)
    rw [begin, hlead]
    rfl
  unfold Opened.next decodeFrom
  split
  · rename_i hbounds
    rw [hbounds, hbegin]
    rfl
  · rename_i low high others hbounds
    have hout : ¬ (low ≤ b ∧ b ≤ high) := fun hlow =>
      UInt8.not_lt.mpr (UInt8.le_trans (h.completes hbounds).1 hlow.1) hb
    rw [hbounds, if_neg hout, hbegin]
    rfl

end Opened

theorem of_lead?_eq_nil {b : UInt8} {n : Nat} (h : lead? b = some ⟨n, []⟩) :
    b < 0x80 ∧ n = b.toNat := by
  unfold lead? at h
  dsimp only at h
  split at h
  · rename_i hb
    exact ⟨UInt8.lt_iff_toNat_lt.mpr hb, (congrArg Opened.value (Option.some.inj h)).symm⟩
  · split_ifs at h <;> simp at h

theorem mem_begin {b : UInt8} {c : Char} (h : c ∈ (begin b).1) :
    b < 0x80 ∧ c = asciiChar b ∨ 0x80 ≤ c.toNat := by
  unfold begin at h
  split at h
  · rw [List.mem_singleton.mp h]
    exact .inr le_toNat_replacement
  · rename_i n hn
    obtain ⟨hb, rfl⟩ := of_lead?_eq_nil hn
    exact .inl ⟨hb, List.mem_singleton.mp h⟩
  · exact absurd h List.not_mem_nil

namespace Opened

variable {o : Opened}

/-- The characters that a byte completes are its own, if it is ASCII, and others outside. -/
theorem Fits.mem_next (h : o.Fits) {b : UInt8} {c : Char} (hc : c ∈ (o.next b).1) :
    b < 0x80 ∧ c = asciiChar b ∨ 0x80 ≤ c.toNat := by
  unfold Opened.next at hc
  split at hc
  · exact mem_begin hc
  · rename_i low high others hbounds
    split_ifs at hc with hb hothers
    · obtain rfl := List.isEmpty_iff.mp hothers
      rw [List.mem_singleton.mp hc]
      exact .inr (le_toNat_of_completes ((h.completes hbounds).2 b hb.1 hb.2))
    · exact absurd hc List.not_mem_nil
    · rcases List.mem_cons.mp hc with rfl | hc
      · exact .inr le_toNat_replacement
      · exact mem_begin hc

end Opened

/-! ## ASCII bytes and characters -/

section

variable {o : Opened} {b : UInt8} {bs rest : List UInt8}

theorem decodeFrom_cons (o : Opened) (b : UInt8) (bs : List UInt8) :
    decodeFrom o (b :: bs) = (o.next b).1 ++ decodeFrom (o.next b).2 bs :=
  rfl

/-- An ASCII byte separates what stands before it from what follows. -/
theorem decodeFrom_append_cons (h : o.Fits) (hb : b < 0x80) (bs rest : List UInt8) :
    decodeFrom o (bs ++ b :: rest) =
      decodeFrom o bs ++ asciiChar b :: decodeFrom .nothing rest := by
  induction bs generalizing o with
  | nil => rw [List.nil_append, decodeFrom_cons, h.next_of_ascii hb, List.append_assoc]; rfl
  | cons c bs ih =>
    rw [List.cons_append, decodeFrom_cons, ih (h.next c), decodeFrom_cons, List.append_assoc]

theorem mem_of_mem_decodeFrom (h : o.Fits) (hb : b < 0x80)
    (hmem : asciiChar b ∈ decodeFrom o bs) : b ∈ bs := by
  have hascii : (asciiChar b).toNat < 0x80 := by
    rw [toNat_asciiChar hb]
    exact UInt8.lt_iff_toNat_lt.mp hb
  induction bs generalizing o with
  | nil =>
    unfold decodeFrom at hmem
    split_ifs at hmem
    · exact absurd hmem List.not_mem_nil
    · rw [List.mem_singleton.mp hmem] at hascii
      exact absurd le_toNat_replacement (Nat.not_le.mpr hascii)
  | cons c bs ih =>
    rcases List.mem_append.mp hmem with hmem | hmem
    · obtain ⟨hc, heq⟩ | hle := h.mem_next hmem
      · rw [(asciiChar_inj hb hc).mp heq]
        exact List.mem_cons_self
      · exact absurd hle (Nat.not_le.mpr hascii)
    · exact List.mem_cons_of_mem _ (ih (h.next c) hmem)

/-- Bytes have an ASCII character in their text exactly if they have its byte. -/
theorem mem_decode_iff (hb : b < 0x80) : asciiChar b ∈ (decode bs).toList ↔ b ∈ bs := by
  rw [decode, String.toList_ofList]
  refine ⟨mem_of_mem_decodeFrom fits_nothing hb, fun hmem => ?_⟩
  obtain ⟨before, after, rfl⟩ := List.append_of_mem hmem
  rw [decodeFrom_append_cons fits_nothing hb]
  exact List.mem_append_right _ List.mem_cons_self

theorem decode_append_cons (hb : b < 0x80) (bs rest : List UInt8) :
    decode (bs ++ b :: rest) = decode bs ++ String.singleton (asciiChar b) ++ decode rest := by
  rw [decode, decodeFrom_append_cons fits_nothing hb, ← String.toList_inj]
  simp [decode]

end

/-! ## ASCII texts -/

/-- A byte outside ASCII completes a character outside ASCII, or opens one. -/
theorem exists_le_begin {b : UInt8} (hb : ¬ b < 0x80) :
    (∃ c ∈ (begin b).1, 0x80 ≤ c.toNat) ∨ (begin b).2.bounds ≠ [] := by
  unfold begin
  split
  · exact .inl ⟨replacement, List.mem_singleton_self _, le_toNat_replacement⟩
  · rename_i n hn
    exact absurd (of_lead?_eq_nil hn).1 hb
  · rename_i o hne ho
    exact .inr fun hbounds => hne o.value (congrArg (Opened.mk o.value) hbounds)

/-- What is open is completed to a character outside ASCII, or replaced, or stays open. -/
theorem Opened.Fits.exists_le_next {o : Opened} (h : o.Fits) (hne : o.bounds ≠ []) (b : UInt8) :
    (∃ c ∈ (o.next b).1, 0x80 ≤ c.toNat) ∨ (o.next b).2.bounds ≠ [] := by
  obtain ⟨⟨low, high⟩, others, hbounds⟩ := List.exists_cons_of_ne_nil hne
  simp only [Opened.next, hbounds]
  split_ifs with hb hothers
  · obtain rfl := List.isEmpty_iff.mp hothers
    exact .inl ⟨_, List.mem_singleton_self _,
      le_toNat_of_completes ((h.completes hbounds).2 b hb.1 hb.2)⟩
  · exact .inr (by simpa using hothers)
  · exact .inl ⟨replacement, List.mem_cons_self, le_toNat_replacement⟩

theorem exists_le_decodeFrom {o : Opened} (h : o.Fits) (hne : o.bounds ≠ []) (bs : List UInt8) :
    ∃ c ∈ decodeFrom o bs, 0x80 ≤ c.toNat := by
  induction bs generalizing o with
  | nil =>
    refine ⟨replacement, ?_, le_toNat_replacement⟩
    rw [decodeFrom, if_neg (by simpa using hne)]
    exact List.mem_singleton_self _
  | cons b bs ih =>
    rcases h.exists_le_next hne b with ⟨c, hc, hle⟩ | hopen
    · exact ⟨c, List.mem_append_left _ hc, hle⟩
    · obtain ⟨c, hc, hle⟩ := ih (h.next b) hopen
      exact ⟨c, List.mem_append_right _ hc, hle⟩

/-- If all characters that bytes are read as are ASCII, the bytes are those of the characters. -/
theorem map_decodeFrom {bs : List UInt8} (h : ∀ c ∈ decodeFrom .nothing bs, c.toNat < 0x80) :
    (decodeFrom .nothing bs).map (fun c => UInt8.ofNat c.toNat) = bs := by
  induction bs with
  | nil => rfl
  | cons b bs ih =>
    by_cases hb : b < 0x80
    · have hcons : decodeFrom .nothing (b :: bs) = asciiChar b :: decodeFrom .nothing bs := by
        rw [decodeFrom_cons, fits_nothing.next_of_ascii hb]
        rfl
      rw [hcons, List.forall_mem_cons] at h
      rw [hcons, List.map_cons, toNat_asciiChar hb, UInt8.ofNat_toNat, ih h.2]
    · rcases exists_le_begin hb with ⟨c, hc, hle⟩ | hopen
      · exact absurd hle (Nat.not_le.mpr (h c (List.mem_append_left _ hc)))
      · obtain ⟨c, hc, hle⟩ := exists_le_decodeFrom (fits_begin b) hopen bs
        exact absurd hle (Nat.not_le.mpr (h c (List.mem_append_right _ hc)))

/-! ## The bytes of a text -/

theorem lead?_two : ∀ k < 32, 2 ≤ k → lead? (UInt8.ofNat (k + 0xC0)) = some ⟨k, [continuation]⟩ := by
  decide

theorem lead?_three : ∀ k < 16, lead? (UInt8.ofNat (k + 0xE0)) =
    some ⟨k, [(if k = 0 then 0xA0 else 0x80, if k = 13 then 0x9F else 0xBF), continuation]⟩ := by
  decide

theorem lead?_four : ∀ k < 5, lead? (UInt8.ofNat (k + 0xF0)) =
    some ⟨k, [(if k = 0 then 0x90 else 0x80, if k = 4 then 0x8F else 0xBF), continuation,
      continuation]⟩ := by
  decide

section

variable {p : Prop} [Decidable p] {b c : UInt8} {m : Nat}

/-- A lower bound that is another one for some characters. -/
theorem toNat_ite_le (hb : p → b.toNat ≤ m) (hc : c.toNat ≤ m) :
    (if p then b else c).toNat ≤ m := by
  split_ifs with h
  · exact hb h
  · exact hc

/-- An upper bound that is another one for some characters. -/
theorem le_toNat_ite (hb : p → m ≤ b.toNat) (hc : m ≤ c.toNat) :
    m ≤ (if p then b else c).toNat := by
  split_ifs with h
  · exact hb h
  · exact hc

end

section

variable {value k : Nat} {others : List Bounds}

theorem decodeFrom_lead {b : UInt8} {bound : Bounds} (h : lead? b = some ⟨k, bound :: others⟩)
    (bs : List UInt8) : decodeFrom .nothing (b :: bs) = decodeFrom ⟨k, bound :: others⟩ bs := by
  have hnext : Opened.nothing.next b = ([], ⟨k, bound :: others⟩) := by
    show begin b = _
    rw [begin, h]
  rw [decodeFrom_cons, hnext, List.nil_append]

variable (hk : k < 64)

include hk

theorem next_within {low high : UInt8} (hlow : low.toNat ≤ k + 0x80)
    (hhigh : k + 0x80 ≤ high.toNat) :
    Opened.next ⟨value, (low, high) :: others⟩ (UInt8.ofNat (k + 0x80)) =
      if others.isEmpty then ([Char.ofNat (value * 64 + k)], .nothing)
      else ([], ⟨value * 64 + k, others⟩) := by
  have hb : (UInt8.ofNat (k + 0x80)).toNat = k + 0x80 := UInt8.toNat_ofNat_of_lt' (by
    show k + 0x80 < 256
    omega)
  simp only [Opened.next, UInt8.le_iff_toNat_le, hb, hlow, hhigh, and_self, if_true,
    Nat.add_sub_cancel]

/-- A byte inside a character. -/
theorem decodeFrom_inner {low high : UInt8} {bound : Bounds} (hlow : low.toNat ≤ k + 0x80)
    (hhigh : k + 0x80 ≤ high.toNat) (bs : List UInt8) :
    decodeFrom ⟨value, (low, high) :: bound :: others⟩ (UInt8.ofNat (k + 0x80) :: bs) =
      decodeFrom ⟨value * 64 + k, bound :: others⟩ bs := by
  rw [decodeFrom_cons, next_within hk hlow hhigh]
  rfl

theorem decodeFrom_continuation {bound : Bounds} (bs : List UInt8) :
    decodeFrom ⟨value, continuation :: bound :: others⟩ (UInt8.ofNat (k + 0x80) :: bs) =
      decodeFrom ⟨value * 64 + k, bound :: others⟩ bs :=
  decodeFrom_inner hk (Nat.le_add_left ..) (Nat.add_le_add_right (Nat.le_of_lt_succ hk) _) bs

/-- The last byte of a character. -/
theorem decodeFrom_last (bs : List UInt8) :
    decodeFrom ⟨value, [continuation]⟩ (UInt8.ofNat (k + 0x80) :: bs) =
      Char.ofNat (value * 64 + k) :: decodeFrom .nothing bs := by
  rw [decodeFrom_cons, continuation, next_within hk (Nat.le_add_left ..)
    (Nat.add_le_add_right (Nat.le_of_lt_succ hk) _)]
  rfl

end

/-- The bytes of a character are read as that character. -/
theorem decodeFrom_encodeChar (c : Char) (bs : List UInt8) :
    decodeFrom .nothing (String.utf8EncodeChar c ++ bs) = c :: decodeFrom .nothing bs := by
  have hvalid : c.val.toNat.isValidChar := c.valid
  have hchar : Char.ofNat c.val.toNat = c := Char.ofNat_toNat c
  have hbits (m : Nat) : m % 64 < 64 := Nat.mod_lt m (by decide)
  have hbyte (m : Nat) : m % 64 + 0x80 ≤ 0xBF :=
    Nat.add_le_add_right (Nat.le_of_lt_succ (hbits m)) _
  simp only [String.utf8EncodeChar]
  generalize c.val.toNat = n at *
  split_ifs with hone htwo hthree
  · have hn : (UInt8.ofNat n).toNat = n := UInt8.toNat_ofNat_of_lt' (by
      show n < 256
      omega)
    have hascii : UInt8.ofNat n < 0x80 := by
      rw [UInt8.lt_iff_toNat_lt, hn]
      exact Nat.lt_succ_of_le hone
    rw [List.singleton_append, decodeFrom_cons, fits_nothing.next_of_ascii hascii, asciiChar, hn,
      hchar]
    rfl
  · have hlead := lead?_two (n / 64 % 32) (by omega) (by omega)
    have hvalue : n / 64 % 32 * 64 + n % 64 = n := by omega
    rw [List.cons_append, List.singleton_append, decodeFrom_lead hlead, decodeFrom_last (hbits n),
      hvalue, hchar]
  · have hlead := lead?_three (n / 4096 % 16) (by omega)
    have hlow : n / 4096 % 16 = 0 → 0xA0 ≤ n / 64 % 64 + 0x80 := by omega
    have hhigh : n / 4096 % 16 = 13 → n / 64 % 64 + 0x80 ≤ 0x9F := by omega
    have hvalue : (n / 4096 % 16 * 64 + n / 64 % 64) * 64 + n % 64 = n := by omega
    rw [List.cons_append, List.cons_append, List.singleton_append, decodeFrom_lead hlead,
      decodeFrom_inner (hbits _) (toNat_ite_le hlow (Nat.le_add_left ..))
        (le_toNat_ite hhigh (hbyte _)), decodeFrom_last (hbits n), hvalue, hchar]
  · have hlead := lead?_four (n / 262144 % 8) (by omega)
    have hlow : n / 262144 % 8 = 0 → 0x90 ≤ n / 4096 % 64 + 0x80 := by omega
    have hhigh : n / 262144 % 8 = 4 → n / 4096 % 64 + 0x80 ≤ 0x8F := by omega
    have hvalue : ((n / 262144 % 8 * 64 + n / 4096 % 64) * 64 + n / 64 % 64) * 64 + n % 64 = n := by
      omega
    rw [List.cons_append, List.cons_append, List.cons_append, List.singleton_append,
      decodeFrom_lead hlead, decodeFrom_inner (hbits _) (toNat_ite_le hlow (Nat.le_add_left ..))
        (le_toNat_ite hhigh (hbyte _)), decodeFrom_continuation (hbits _),
      decodeFrom_last (hbits n), hvalue, hchar]

/-- The bytes of a text are read as that text. -/
theorem decode_bytes (s : String) : decode (bytes s) = s := by
  have hchars (cs : List Char) :
      decodeFrom .nothing (cs.flatMap String.utf8EncodeChar) = cs := by
    induction cs with
    | nil => rfl
    | cons c cs ih => rw [List.flatMap_cons, decodeFrom_encodeChar, ih]
  rw [decode, bytes_eq_flatMap, hchars, String.ofList_toList]

/-- Whether all characters of a text are ASCII. -/
def isAscii (s : String) : Bool := s.toList.all fun c => c.toNat < 0x80

theorem isAscii_iff {s : String} : isAscii s = true ↔ ∀ c ∈ s.toList, c.toNat < 0x80 := by
  simp [isAscii]

/-- An ASCII text is the text of its bytes only. -/
theorem decode_eq_iff {s : String} (hs : isAscii s = true) {bs : List UInt8} :
    decode bs = s ↔ bs = bytes s := by
  have hbytes (bs : List UInt8) (h : decode bs = s) :
      bs = s.toList.map fun c => UInt8.ofNat c.toNat := by
    have hchars : decodeFrom .nothing bs = s.toList := by rw [← h, decode, String.toList_ofList]
    rw [← hchars, map_decodeFrom (hchars ▸ isAscii_iff.mp hs)]
  refine ⟨fun h => ?_, fun h => by rw [h, decode_bytes]⟩
  rw [hbytes bs h, ← hbytes (bytes s) (decode_bytes s)]

theorem bytes_asciiChar {b : UInt8} (hb : b < 0x80) :
    bytes (String.singleton (asciiChar b)) = [b] := by
  have hascii : isAscii (String.singleton (asciiChar b)) = true := by
    simpa [isAscii, toNat_asciiChar hb] using UInt8.lt_iff_toNat_lt.mp hb
  refine ((decode_eq_iff hascii).mp ?_).symm
  rw [← List.nil_append [b], decode_append_cons hb]
  simp [decode, decodeFrom, Opened.nothing]

end CodeAtlas.Utf8
