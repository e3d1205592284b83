import CodeAtlas.Text.Path
import Mathlib.Data.List.Basic

/-!
# Joined names

Names are joined with a separator between them. What they are joined to has nothing but what is
in the names and the separator. If no name has the separator, the names can be split again
(`splitAtEach_joined`), so that no other names are joined to the same (`joined_inj`).
-/

namespace CodeAtlas

open CodeAtlas.Path

theorem mem_toList_intercalate {sep : String} {parts : List String} {c : Char}
    (h : c ∈ (sep.intercalate parts).toList) :
    c ∈ sep.toList ∨ ∃ s ∈ parts, c ∈ s.toList := by
  induction parts with
  | nil => simp at h
  | cons s parts ih =>
    by_cases hparts : parts = []
    · rw [hparts, String.intercalate_singleton] at h
      exact .inr ⟨s, List.mem_cons_self, h⟩
    · rw [String.intercalate_cons_of_ne_nil hparts, String.toList_append, String.toList_append,
        List.mem_append, List.mem_append] at h
      obtain (h | h) | h := h
      · exact .inr ⟨s, List.mem_cons_self, h⟩
      · exact .inl h
      · obtain h | ⟨x, hx, hc⟩ := ih h
        · exact .inl h
        · exact .inr ⟨x, List.mem_cons_of_mem _ hx, hc⟩

theorem mem_toList_intercalate_of_mem {sep s : String} {parts : List String} {c : Char}
    (hs : s ∈ parts) (hc : c ∈ s.toList) : c ∈ (sep.intercalate parts).toList := by
  induction parts with
  | nil => cases hs
  | cons t parts ih =>
    by_cases hparts : parts = []
    · rw [hparts, List.mem_singleton] at hs
      rwa [hparts, String.intercalate_singleton, ← hs]
    · rw [String.intercalate_cons_of_ne_nil hparts, String.toList_append, String.toList_append]
      rcases List.mem_cons.mp hs with rfl | hs
      · exact List.mem_append_left _ (List.mem_append_left _ hc)
      · exact List.mem_append_right _ (ih hs)

theorem intercalate_eq_empty_iff {sep : String} {parts : List String} (h : ∀ s ∈ parts, s ≠ "") :
    sep.intercalate parts = "" ↔ parts = [] := by
  match parts, h with
  | [], _ => exact iff_of_true String.intercalate_nil rfl
  | [s], h => simpa using h s List.mem_cons_self
  | s :: s' :: rest, h =>
    have hs := h s List.mem_cons_self
    rw [String.intercalate_cons_cons, ← String.toList_eq_nil_iff]
    simp [hs]

/-! ## Splitting -/

section

variable {α : Type} [BEq α] [LawfulBEq α] {c : α} {xs : List α}

theorem bne_of_mem_reverse (h : c ∉ xs) : ∀ x ∈ xs.reverse, (x != c) = true := by
  intro x hx
  rw [bne_iff_ne]
  rintro rfl
  exact h (List.mem_reverse.mp hx)

theorem splitAtEach_of_not_mem (h : c ∉ xs) : splitAtEach c xs = [xs] := by
  induction xs with
  | nil => rfl
  | cons x xs ih =>
    rw [List.mem_cons, not_or] at h
    rw [splitAtEach, if_neg (by simpa using Ne.symm h.1), ih h.2]

omit [LawfulBEq α] in
theorem splitAtEach_ne_nil (c : α) (xs : List α) : splitAtEach c xs ≠ [] := by
  cases xs with
  | nil => exact List.cons_ne_nil _ _
  | cons x xs =>
    rw [splitAtEach]
    split
    · exact List.cons_ne_nil _ _
    · split <;> exact List.cons_ne_nil _ _

/-- What is split at one of the places of a separator can be split there first. -/
theorem splitAtEach_append_cons (c : α) (xs rest : List α) :
    splitAtEach c (xs ++ c :: rest) = splitAtEach c xs ++ splitAtEach c rest := by
  induction xs with
  | nil => simp [splitAtEach]
  | cons x xs ih =>
    rw [List.cons_append, splitAtEach, splitAtEach, ih]
    obtain ⟨part, parts, hparts⟩ := List.exists_cons_of_ne_nil (splitAtEach_ne_nil c xs)
    rw [hparts]
    split <;> rfl

theorem splitAtEach_joined {parts : List (List α)} (hne : parts ≠ [])
    (h : ∀ s ∈ parts, c ∉ s) : splitAtEach c ([c].intercalate parts) = parts := by
  induction parts with
  | nil => exact absurd rfl hne
  | cons s rest ih =>
    rw [List.forall_mem_cons] at h
    by_cases hrest : rest = []
    · rw [hrest, List.intercalate_singleton, splitAtEach_of_not_mem h.1]
    · rw [List.intercalate_cons_of_ne_nil hrest, List.append_assoc, List.singleton_append,
        splitAtEach_append_cons, splitAtEach_of_not_mem h.1, ih hrest h.2, List.singleton_append]

theorem joined_ne_nil {parts : List (List α)} (hne : parts ≠ [])
    (h : ∀ s ∈ parts, s ≠ [] ∧ c ∉ s) : [c].intercalate parts ≠ [] := by
  intro hnil
  have hparts := splitAtEach_joined hne fun s hs => (h s hs).2
  rw [hnil] at hparts
  exact (h [] (hparts ▸ List.mem_singleton_self _)).1 rfl

/-- Parts that do not have the separator between them are told by what they are joined to. -/
theorem joined_inj {ps qs : List (List α)} (hps : ∀ s ∈ ps, s ≠ [] ∧ c ∉ s)
    (hqs : ∀ s ∈ qs, s ≠ [] ∧ c ∉ s) : [c].intercalate ps = [c].intercalate qs ↔ ps = qs := by
  refine ⟨fun h => ?_, congrArg _⟩
  by_cases hp : ps = []
  · by_cases hq : qs = []
    · rw [hp, hq]
    · rw [hp, List.intercalate_nil] at h
      exact absurd h.symm (joined_ne_nil hq hqs)
  · by_cases hq : qs = []
    · rw [hq, List.intercalate_nil] at h
      exact absurd h (joined_ne_nil hp hps)
    · rw [← splitAtEach_joined hp fun s hs => (hps s hs).2, h,
        splitAtEach_joined hq fun s hs => (hqs s hs).2]

end

/-- The same of texts. -/
theorem joined_texts_inj {c : Char} {sep : String} (hsep : sep.toList = [c]) {ps qs : List String}
    (hps : ∀ s ∈ ps, s ≠ "" ∧ c ∉ s.toList) (hqs : ∀ s ∈ qs, s ≠ "" ∧ c ∉ s.toList) :
    sep.intercalate ps = sep.intercalate qs ↔ ps = qs := by
  have hchars {rs : List String} (hrs : ∀ s ∈ rs, s ≠ "" ∧ c ∉ s.toList) :
      ∀ cs ∈ rs.map String.toList, cs ≠ [] ∧ c ∉ cs := by
    intro cs hcs
    obtain ⟨s, hs, rfl⟩ := List.mem_map.mp hcs
    exact ⟨mt String.toList_eq_nil_iff.mp (hrs s hs).1, (hrs s hs).2⟩
  rw [← String.toList_inj, String.toList_intercalate, String.toList_intercalate, hsep,
    joined_inj (hchars hps) (hchars hqs)]
  exact (List.map_injective_iff.mpr fun _ _ => String.toList_inj.mp).eq_iff

end CodeAtlas
