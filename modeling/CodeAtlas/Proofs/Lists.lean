import Mathlib.Data.List.Forall2
import Mathlib.Data.List.Induction
import Mathlib.Data.List.InsertIdx
import Mathlib.Data.List.Nodup
import Mathlib.Tactic.SplitIfs

/-!
# Lists

What the library has not, and what more than one part of the theory needs of the lists in it.

Items of a list can be told by where they first occur, also when repetitions are left out
(`pairwise_idxOf_eraseDups`). A list can be sorted by a key of its items : those with one key stay
in the order in which they were (`keyed_mergeSort`), and that together with the order of the keys
leaves no choice. So a part of a list is sorted to a part of the sorted list
(`mergeSort_sublist`).
-/

namespace CodeAtlas

/-! ## First occurrences -/

section

variable {α : Type} [BEq α] [LawfulBEq α]

theorem pairwise_idxOf {xs : List α} (h : xs.Nodup) :
    xs.Pairwise fun a b => xs.idxOf a < xs.idxOf b := by
  rw [List.pairwise_iff_getElem]
  intro i j hi hj hij
  rwa [h.idxOf_getElem, h.idxOf_getElem]

theorem eraseDups_concat (xs : List α) (x : α) : (xs ++ [x]).eraseDups =
    if x ∈ xs then xs.eraseDups else xs.eraseDups ++ [x] := by
  have hnew : [x].removeAll xs = [x].filter fun c => !xs.contains c := rfl
  rw [List.eraseDups_append, hnew]
  split_ifs with hx <;> simp [List.eraseDups_cons, hx]

/-- Without their repetitions, items stand in the order in which they first occur. -/
theorem pairwise_idxOf_eraseDups (xs : List α) :
    xs.eraseDups.Pairwise fun a b => xs.idxOf a < xs.idxOf b := by
  induction xs using List.reverseRecOn with
  | nil => exact List.Pairwise.nil
  | append_singleton xs x ih =>
    have hknown : xs.eraseDups.Pairwise fun a b => (xs ++ [x]).idxOf a < (xs ++ [x]).idxOf b := by
      refine ih.imp_of_mem fun {a b} ha hb hab => ?_
      rwa [List.idxOf_append_of_mem (List.mem_eraseDups.mp ha),
        List.idxOf_append_of_mem (List.mem_eraseDups.mp hb)]
    rw [eraseDups_concat]
    split_ifs with hx
    · exact hknown
    · refine List.pairwise_append.mpr ⟨hknown, List.pairwise_singleton _ _, fun a ha b hb => ?_⟩
      rw [List.mem_eraseDups] at ha
      have hbefore := List.idxOf_lt_length_of_mem ha
      rw [List.mem_singleton.mp hb, List.idxOf_append_of_mem ha, List.idxOf_append_of_notMem hx]
      omega

theorem nodup_eraseDups (xs : List α) : xs.eraseDups.Nodup := by
  refine (pairwise_idxOf_eraseDups xs).imp fun {a b} hlt => ?_
  rintro rfl
  exact Nat.lt_irrefl _ hlt

/-- A list without repetitions has one item at most for which there is something. -/
theorem flatMap_eq_of_nodup {β : Type} {keys : List α} (hkeys : keys.Nodup) {f : α → List β}
    (key : α) (hother : ∀ k ∈ keys, k ≠ key → f k = []) :
    keys.flatMap f = if key ∈ keys then f key else [] := by
  induction keys with
  | nil => rfl
  | cons k keys ih =>
    obtain ⟨hnew, hkeys⟩ := List.nodup_cons.mp hkeys
    obtain ⟨hk, hother⟩ := List.forall_mem_cons.mp hother
    rw [List.flatMap_cons, ih hkeys hother]
    by_cases h : k = key
    · subst h
      simp [hnew]
    · simp [hk h, Ne.symm h]

end

/-! ## Items in relation to each other -/

section

variable {α β : Type}

/-- A list of which no two items can be together. -/
theorem length_le_one_of_pairwise {xs : List α} (h : xs.Pairwise fun _ _ => False) :
    xs.length ≤ 1 := by
  match xs, h with
  | [], _ => exact Nat.zero_le 1
  | [_], _ => exact Nat.le_refl 1
  | _ :: _ :: _, h => exact (List.rel_of_pairwise_cons h List.mem_cons_self).elim

/-- The first item with a property is related to every other one that has it. -/
theorem rel_of_find?_eq_some {R : α → α → Prop} {xs : List α} {p : α → Bool} {a : α}
    (hxs : xs.Pairwise R) (ha : xs.find? p = some a) {b : α} (hb : b ∈ xs) (hp : p b) :
    b = a ∨ R a b := by
  obtain ⟨-, as, bs, rfl, has⟩ := List.find?_eq_some_iff_append.mp ha
  rcases List.mem_append.mp hb with hb | hb
  · exact absurd hp (by simpa using has b hb)
  · rcases List.mem_cons.mp hb with rfl | hb
    · exact Or.inl rfl
    · exact Or.inr (List.rel_of_pairwise_cons (List.pairwise_append.mp hxs).2.1 hb)

/-- A number put in after itself leaves an ascending list ascending. -/
theorem pairwise_insertIdx_succ : ∀ {xs : List Nat} {i x : Nat}, xs.Pairwise (· ≤ ·) →
    xs[i]? = some x → (xs.insertIdx (i + 1) x).Pairwise (· ≤ ·)
  | [], _, _, _, h => by simp at h
  | y :: xs, 0, x, hxs, h => by
    obtain rfl : y = x := by simpa using h
    rw [List.insertIdx_succ_cons, List.insertIdx_zero, List.pairwise_cons]
    refine ⟨fun z hz => ?_, hxs⟩
    rcases List.mem_cons.mp hz with rfl | hz
    · exact Nat.le_refl _
    · exact (List.pairwise_cons.mp hxs).1 z hz
  | y :: xs, i + 1, x, hxs, h => by
    obtain ⟨hy, hxs⟩ := List.pairwise_cons.mp hxs
    have hget : xs[i]? = some x := by simpa using h
    rw [List.insertIdx_succ_cons, List.pairwise_cons]
    refine ⟨fun z hz => ?_, pairwise_insertIdx_succ hxs hget⟩
    rcases List.eq_or_mem_of_mem_insertIdx hz with rfl | hz
    · exact hy z (List.mem_of_getElem? hget)
    · exact hy z hz

theorem exists_forall₂ {R : α → β → Prop} {as : List α} (h : ∀ a ∈ as, ∃ b, R a b) :
    ∃ bs, List.Forall₂ R as bs := by
  induction as with
  | nil => exact ⟨[], .nil⟩
  | cons a as ih =>
    obtain ⟨⟨b, hb⟩, hrest⟩ := List.forall_mem_cons.mp h
    obtain ⟨bs, hbs⟩ := ih hrest
    exact ⟨b :: bs, .cons hb hbs⟩

theorem exists_of_forall₂ {R : α → β → Prop} {as : List α} {bs : List β}
    (h : List.Forall₂ R as bs) : (∀ a ∈ as, ∃ b ∈ bs, R a b) ∧ ∀ b ∈ bs, ∃ a ∈ as, R a b := by
  induction h with
  | nil => exact ⟨nofun, nofun⟩
  | cons hab _ ih => simp_all

/-- Lists that look the same through a function are related item by item, if their items are. -/
theorem forall₂_of_map_eq {look : α → β} {R : α → α → Prop} {xs ys : List α}
    (h : xs.map look = ys.map look) (hR : ∀ x ∈ xs, ∀ y ∈ ys, look x = look y → R x y) :
    List.Forall₂ R xs ys := by
  rw [← List.forall₂_eq_eq_eq] at h
  have hsame := List.forall₂_map_right_iff.mp (List.forall₂_map_left_iff.mp h)
  obtain ⟨hlength, hzip⟩ := List.forall₂_iff_zip.mp hsame
  refine List.forall₂_iff_zip.mpr ⟨hlength, fun {x y} hxy => ?_⟩
  obtain ⟨hx, hy⟩ := List.of_mem_zip hxy
  exact hR x hx y hy (hzip hxy)

end

/-! ## Sorting by a key -/

variable {α κ : Type} [DecidableEq κ] {key : α → κ}

/-- The items with a key. -/
def keyed (key : α → κ) (k : κ) (xs : List α) : List α := xs.filter fun x => key x == k

theorem mem_keyed {k : κ} {xs : List α} {x : α} : x ∈ keyed key k xs ↔ x ∈ xs ∧ key x = k := by
  simp [keyed]

theorem keyed_cons_of_eq {k : κ} {x : α} (h : key x = k) (xs : List α) :
    keyed key k (x :: xs) = x :: keyed key k xs :=
  List.filter_cons_of_pos (by simpa using h)

theorem keyed_cons_of_ne {k : κ} {x : α} (h : key x ≠ k) (xs : List α) :
    keyed key k (x :: xs) = keyed key k xs :=
  List.filter_cons_of_neg (by simpa using h)

theorem mem_of_keyed_sublist {xs ys : List α} {x : α}
    (h : ∀ k, (keyed key k xs).Sublist (keyed key k ys)) (hx : x ∈ xs) : x ∈ ys :=
  (mem_keyed.mp ((h (key x)).subset (mem_keyed.mpr ⟨hx, rfl⟩))).1

/-- Of items with different keys, one only has a given key. -/
theorem keyed_eq_singleton (key : α → κ) {xs : List α} {x : α}
    (h : xs.Pairwise fun a b => key a ≠ key b) (hx : x ∈ xs) : keyed key (key x) xs = [x] := by
  induction xs with
  | nil => exact absurd hx List.not_mem_nil
  | cons y xs ih =>
    obtain ⟨hy, hxs⟩ := List.pairwise_cons.mp h
    rcases List.mem_cons.mp hx with rfl | hx
    · have hrest : keyed key (key x) xs = [] :=
        List.eq_nil_iff_forall_not_mem.mpr fun z hz =>
          hy z (mem_keyed.mp hz).1 (mem_keyed.mp hz).2.symm
      rw [keyed_cons_of_eq rfl, hrest]
    · rw [keyed_cons_of_ne (hy x hx), ih hxs hx]

variable [LE κ] [Std.IsLinearOrder κ]

/-- Of sorted lists, one is a part of the other if that is so for each key. -/
theorem sublist_of_keyed_sublist {xs ys : List α} (hxs : xs.Pairwise fun a b => key a ≤ key b)
    (hys : ys.Pairwise fun a b => key a ≤ key b)
    (h : ∀ k, (keyed key k xs).Sublist (keyed key k ys)) : xs.Sublist ys := by
  induction ys generalizing xs with
  | nil =>
    have hnil := List.eq_nil_iff_forall_not_mem.mpr fun x hx =>
      List.not_mem_nil (mem_of_keyed_sublist h hx)
    exact hnil ▸ List.nil_sublist _
  | cons y ys ih =>
    cases xs with
    | nil => exact List.nil_sublist _
    | cons x xs =>
      obtain ⟨hx, hxs'⟩ := List.pairwise_cons.mp hxs
      obtain ⟨hy, hys'⟩ := List.pairwise_cons.mp hys
      -- `y` is not needed for any other key than its own
      have hskip (hkeyed : (keyed key (key y) (x :: xs)).Sublist (keyed key (key y) ys)) :
          (x :: xs).Sublist (y :: ys) := by
        refine (ih hxs hys' fun k => ?_).cons y
        by_cases hk : key y = k
        · exact hk ▸ hkeyed
        · rw [← keyed_cons_of_ne hk ys]
          exact h k
      by_cases hkey : key x = key y
      · have hfirst := h (key y)
        rw [keyed_cons_of_eq hkey, keyed_cons_of_eq rfl] at hfirst
        rcases List.sublist_cons_iff.mp hfirst with hrest | ⟨rest, hrest, hsub⟩
        · exact hskip (keyed_cons_of_eq hkey xs ▸ hrest)
        · obtain ⟨rfl, rfl⟩ := List.cons_eq_cons.mp hrest
          refine (ih hxs' hys' fun k => ?_).cons_cons x
          by_cases hk : key x = k
          · exact hk ▸ hsub
          · rw [← keyed_cons_of_ne hk xs, ← keyed_cons_of_ne hk ys]
            exact h k
      · have hle : key y ≤ key x := by
          rcases List.mem_cons.mp (mem_of_keyed_sublist h List.mem_cons_self) with rfl | hmem
          · exact Std.le_refl _
          · exact hy x hmem
        have hnone : keyed key (key y) (x :: xs) = [] := by
          refine List.eq_nil_iff_forall_not_mem.mpr fun z hz => ?_
          obtain ⟨hz, hzkey⟩ := mem_keyed.mp hz
          rcases List.mem_cons.mp hz with rfl | hz
          · exact hkey hzkey
          · exact hkey (Std.le_antisymm (hzkey ▸ hx z hz) hle)
        exact hskip (hnone ▸ List.nil_sublist _)

variable [DecidableLE κ]

section

omit [DecidableEq κ]

variable (key)

theorem key_le_trans (a b c : α) (hab : decide (key a ≤ key b) = true)
    (hbc : decide (key b ≤ key c) = true) : decide (key a ≤ key c) = true :=
  decide_eq_true (Std.le_trans (of_decide_eq_true hab) (of_decide_eq_true hbc))

theorem key_le_total (a b : α) : (decide (key a ≤ key b) || decide (key b ≤ key a)) = true := by
  simpa using Std.le_total

theorem pairwise_mergeSort_key (xs : List α) :
    (xs.mergeSort fun a b => decide (key a ≤ key b)).Pairwise fun a b => key a ≤ key b :=
  (List.pairwise_mergeSort (key_le_trans key) (key_le_total key) xs).imp of_decide_eq_true

end

/-- Items with one key stay in their order. -/
theorem keyed_mergeSort (key : α → κ) (k : κ) (xs : List α) :
    keyed key k (xs.mergeSort fun a b => decide (key a ≤ key b)) = keyed key k xs := by
  have hsorted : (keyed key k xs).Pairwise fun a b => decide (key a ≤ key b) = true := by
    refine List.pairwise_of_forall_mem_list fun a ha b hb => ?_
    rw [(mem_keyed.mp ha).2, (mem_keyed.mp hb).2]
    exact decide_eq_true (Std.le_refl k)
  have hsub := List.sublist_mergeSort (key_le_trans key) (key_le_total key) hsorted
    List.filter_sublist
  have hkeyed := hsub.filter fun x => key x == k
  rw [keyed, List.filter_filter] at hkeyed
  simp only [Bool.and_self] at hkeyed
  exact (hkeyed.eq_of_length
    ((List.mergeSort_perm xs _).filter fun x => key x == k).length_eq.symm).symm

/-- A part of a list is sorted to a part of the sorted list. -/
theorem mergeSort_sublist {xs ys : List α} (h : xs.Sublist ys) :
    (xs.mergeSort fun a b => decide (key a ≤ key b)).Sublist
      (ys.mergeSort fun a b => decide (key a ≤ key b)) := by
  refine sublist_of_keyed_sublist (pairwise_mergeSort_key key xs) (pairwise_mergeSort_key key ys)
    fun k => ?_
  rw [keyed_mergeSort, keyed_mergeSort]
  exact h.filter _

/-- Items are put back in their order by their places. -/
theorem mergeSort_place_eq_zipIdx {ps : List (α × Nat)} {xs : List α} (h : ps.Perm xs.zipIdx) :
    (ps.mergeSort fun a b => decide (a.2 ≤ b.2)) = xs.zipIdx := by
  have hplaces : xs.zipIdx.Pairwise fun a b => a.2 ≤ b.2 := by
    rw [← List.pairwise_map, List.zipIdx_map_snd]
    exact List.pairwise_le_range'
  refine List.Perm.eq_of_pairwise (fun a b ha hb hab hba => ?_)
    (pairwise_mergeSort_key (·.2) ps) hplaces ((List.mergeSort_perm ps _).trans h)
  have hplace : a.2 = b.2 := Nat.le_antisymm hab hba
  have ha := List.mem_zipIdx_iff_getElem?.mp (h.mem_iff.mp (List.mem_mergeSort.mp ha))
  have hb := List.mem_zipIdx_iff_getElem?.mp hb
  rw [hplace, hb] at ha
  exact Prod.ext (Option.some.inj ha).symm hplace

end CodeAtlas
