import CodeAtlas.Json.Record
import Mathlib.Data.List.Basic

/-!
# Writers and readers of JSON values

A writer and a reader of one kind of values agree (`Codec`) if each value in the range of
its type is read back from what is written of it, and only such values are read. Lists,
maps, words and the fields of records inherit this from their parts. Then to read a value
and to write it again changes nothing the second time (`Codec.roundTrips`).
-/

namespace CodeAtlas.Json

/-- A writer and a reader that agree about the values in a range. -/
structure Codec {α : Type} (inRange : α → Prop) (write : α → Json) (read? : Json → Option α) :
    Prop where
  read_write : ∀ a, inRange a → read? (write a) = some a
  inRange_of_read : ∀ j a, read? j = some a → inRange a

/-- A writer and a reader that agree, and with which what is written of a value that was read
is written of it again. -/
structure RoundTrips {α : Type} (inRange : α → Prop) (write : α → Json)
    (read? : Json → Option α) : Prop extends Codec inRange write read? where
  idempotent : ∀ j j', (read? j).map write = some j' → (read? j').map write = some j'

namespace Codec

variable {α : Type} {inRange : α → Prop} {write : α → Json} {read? : Json → Option α}

/-! ## Values of one kind -/

theorem string : Codec (fun _ => True) .string asString? where
  read_write _ _ := rfl
  inRange_of_read _ _ _ := trivial

theorem bool : Codec (fun _ => True) .bool asBool? where
  read_write _ _ := rfl
  inRange_of_read _ _ _ := trivial

/-- A number is read only if it is below the bound. -/
theorem nat (bound : Nat) : Codec (· < bound) .nat (asNat? bound) where
  read_write n hn := by
    have hint : (0 : Int) ≤ n ∧ (n : Int) < bound := ⟨Int.natCast_nonneg n, Int.ofNat_lt.mpr hn⟩
    simp [Json.nat, asNat?, hint]
  inRange_of_read j n hread := by
    unfold asNat? at hread
    split at hread
    · split_ifs at hread with hint
      rw [← Option.some.inj hread]
      omega
    · cases hread

theorem nat16 : Codec (· < UInt16.size) .nat asNat16? := nat _

theorem nat32 : Codec (· < UInt32.size) .nat asNat32? := nat _

theorem nat64 : Codec (· < UInt64.size) .nat asNat64? := nat _

/-- One of some words, if each word is that of one value only. -/
theorem word {words : List α} {word : α → String}
    (hwords : ∀ a, words.find? (fun b => word b == word a) = some a) :
    Codec (fun _ => True) (fun a => .string (word a)) (asWord? words word) where
  read_write a _ := hwords a
  inRange_of_read _ _ _ := trivial

/-! ## Lists and maps -/

/-- If every item is read back, so is the list. -/
theorem mapM_map {β : Type} {write : α → β} {read? : β → Option α} {l : List α}
    (h : ∀ a ∈ l, read? (write a) = some a) :
    (l.map write).mapM read? = some l := by
  induction l with
  | nil => rfl
  | cons a l ih =>
    rw [List.map_cons, List.mapM_cons, h a List.mem_cons_self,
      ih fun b hb => h b (List.mem_cons_of_mem a hb)]
    rfl

/-- What holds of everything that is read holds of the items of a list that is read. -/
theorem forall_of_mapM {β : Type} {read? : β → Option α} {P : α → Prop}
    (h : ∀ b a, read? b = some a → P a) {items : List β} {l : List α}
    (hl : items.mapM read? = some l) : ∀ a ∈ l, P a := by
  induction items generalizing l with
  | nil =>
    rw [← Option.some.inj hl]
    exact fun a ha => nomatch ha
  | cons j items ih =>
    rw [List.mapM_cons] at hl
    obtain ⟨a, ha, hl⟩ := Option.bind_eq_some_iff.mp hl
    obtain ⟨l, htail, hl⟩ := Option.bind_eq_some_iff.mp hl
    rw [← Option.some.inj hl]
    exact List.forall_mem_cons.mpr ⟨h j a ha, ih htail⟩

theorem list (h : Codec inRange write read?) :
    Codec (fun l => ∀ a ∈ l, inRange a) (fun l => .array (l.map write)) (asList? read?) where
  read_write l hl := mapM_map fun a ha => h.read_write a (hl a ha)
  inRange_of_read j l hread := by
    unfold asList? at hread
    split at hread
    · exact forall_of_mapM h.inRange_of_read hread
    · cases hread

theorem strings : Codec (fun _ => True) .strings (asList? asString?) where
  read_write l _ := string.list.read_write l fun _ _ => trivial
  inRange_of_read _ _ _ := trivial

/-- A map is made again of its entries. -/
theorem foldl_insert_toList (m : Std.ExtTreeMap String α) :
    m.toList.foldl (fun m e => m.insert e.1 e.2) (∅ : Std.ExtTreeMap String α) = m := by
  rw [← Std.ExtTreeMap.ofList_eq_foldl]
  refine Std.ExtTreeMap.ext_getElem? fun k => ?_
  cases hk : m[k]? with
  | some a =>
    exact Std.ExtTreeMap.getElem?_ofList_of_mem Std.ReflCmp.compare_self
      Std.ExtTreeMap.distinct_keys_toList (Std.ExtTreeMap.mem_toList_iff_getElem?_eq_some.mpr hk)
  | none =>
    refine Std.ExtTreeMap.getElem?_ofList_of_contains_eq_false ?_
    simpa using hk

theorem forall_foldl_insert {P : α → Prop} {entries : List (String × α)}
    {m : Std.ExtTreeMap String α} (hm : ∀ (k : String) a, m[k]? = some a → P a)
    (hentries : ∀ e ∈ entries, P e.2) (k : String) (a : α)
    (h : (entries.foldl (fun m e => m.insert e.1 e.2) m)[k]? = some a) : P a := by
  induction entries generalizing m with
  | nil => exact hm k a h
  | cons e entries ih =>
    obtain ⟨he, hentries⟩ := List.forall_mem_cons.mp hentries
    refine ih (fun k' a' ha' => ?_) hentries h
    rw [Std.ExtTreeMap.getElem?_insert] at ha'
    split_ifs at ha'
    · rwa [← Option.some.inj ha']
    · exact hm k' a' ha'

theorem map (h : Codec inRange write read?) :
    Codec (fun m : Std.ExtTreeMap String α => ∀ (k : String) a, m[k]? = some a → inRange a)
      (ofMap write) (asMap? read?) where
  read_write m hm := by
    have hentries : (m.toList.map fun e => (e.1, write e.2)).mapM
        (fun f => (read? f.2).map fun a => (f.1, a)) = some m.toList := by
      refine mapM_map fun e he => ?_
      have hrange := hm e.1 e.2 (Std.ExtTreeMap.mem_toList_iff_getElem?_eq_some.mp he)
      rw [h.read_write e.2 hrange]
      rfl
    rw [ofMap, asMap?, hentries, Option.map_some, foldl_insert_toList]
  inRange_of_read j m hread := by
    unfold asMap? at hread
    split at hread
    · obtain ⟨entries, hentries, rfl⟩ := Option.map_eq_some_iff.mp hread
      have hrange : ∀ e ∈ entries, inRange e.2 := by
        refine forall_of_mapM (fun f e hf => ?_) hentries
        obtain ⟨a, ha, rfl⟩ := Option.map_eq_some_iff.mp hf
        exact h.inRange_of_read f.2 a ha
      exact forall_foldl_insert (by simp) hrange
    · cases hread

/-! ## Fields of records -/

variable {r : Record} {place : Nat} {name : String}

section

variable {β : Type} {o : Option α} {rest : α → Option β} {b : β}

/-- Fields are read one after another. -/
theorem reading_iff : (o >>= rest) = some b ↔ ∃ a, o = some a ∧ rest a = some b :=
  Option.bind_eq_some_iff

theorem reading {a : α} (h : o = some a) (hrest : rest a = some b) : (o >>= rest) = some b :=
  reading_iff.mpr ⟨a, h, hrest⟩

end

section

variable (h : Codec inRange write read?)

include h

/-- A field that is written is read back. -/
theorem required {a : α} (hitem : r.item? place name = some (write a)) (ha : inRange a) :
    r.required place name read? = some a := by
  rw [Record.required, hitem]
  exact h.read_write a ha

theorem defaulted {default a : α} (hitem : r.item? place name = some (write a))
    (ha : inRange a) : r.defaulted place name default read? = some a := by
  rw [Record.defaulted, hitem]
  exact h.read_write a ha

theorem optional {a : α} (hitem : r.item? place name = some (write a)) (ha : inRange a)
    (hnull : write a ≠ .null) : r.optional place name read? = some (some a) := by
  unfold Record.optional
  rw [hitem]
  split
  · rename_i hwrite
    exact absurd (Option.some.inj hwrite) hnull
  · rename_i hwrite
    rw [← Option.some.inj hwrite, h.read_write a ha, Option.map_some]
  · cases ‹some (write a) = none›
  · cases ‹some (write a) = none›

/-- A field is read only if it is in range. -/
theorem inRange_of_required {a : α} (ha : r.required place name read? = some a) :
    inRange a := by
  obtain ⟨v, -, hv⟩ := Option.bind_eq_some_iff.mp ha
  exact h.inRange_of_read v a hv

theorem inRange_of_defaulted {default a : α} (hdefault : inRange default)
    (ha : r.defaulted place name default read? = some a) : inRange a := by
  unfold Record.defaulted at ha
  split at ha
  · exact h.inRange_of_read _ a ha
  · rwa [← Option.some.inj ha]

theorem inRange_of_optional {o : Option α} (ho : r.optional place name read? = some o) :
    ∀ a ∈ o, inRange a := by
  rintro a rfl
  unfold Record.optional at ho
  split at ho
  · cases ho
  · obtain ⟨b, hb, hsome⟩ := Option.map_eq_some_iff.mp ho
    rw [← Option.some.inj hsome]
    exact h.inRange_of_read _ b hb
  · cases ho
  · cases ho

end

theorem optString {o : Option String} (hitem : r.item? place name = some (.optString o)) :
    r.optional place name asString? = some o := by
  cases o with
  | none =>
    unfold Record.optional
    rw [hitem]
    cases r <;> rfl
  | some s => exact string.optional hitem trivial nofun

/-! ## Writing what was read -/

/-- What is read is in range, so that it is read back from what is written of it. -/
theorem roundTrips (h : Codec inRange write read?) : RoundTrips inRange write read? where
  toCodec := h
  idempotent j j' hj := by
    obtain ⟨a, ha, rfl⟩ := Option.map_eq_some_iff.mp hj
    rw [h.read_write a (h.inRange_of_read j a ha), Option.map_some]

end Codec

end CodeAtlas.Json
