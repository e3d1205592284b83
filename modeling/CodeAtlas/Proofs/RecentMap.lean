import CodeAtlas.Cache
import CodeAtlas.Proofs.Lists

/-!
# What a map that forgets holds

A map holds no more entries than its capacity and none that was not put into it. `Fits`
says so of a property that all entries have; looking up, putting and clearing keep it.

Which keys a map holds is a matter of their uses alone : the different keys used, the most
recent one first, up to the capacity (`recent`). A key that is used comes to the front
whether it was held or not, and `recent_cons` says that the keys that were forgotten
before are not missed.
-/

namespace CodeAtlas.RecentMap

variable {κ α : Type} {P Q : κ → α → Prop} {m m' : RecentMap κ α} {key : κ} {a : α}

/-- The map is within its capacity, and all its entries have a property. -/
structure Fits (P : κ → α → Prop) (m : RecentMap κ α) : Prop where
  size_le : m.size ≤ m.capacity
  holds : ∀ e ∈ m.entries, P e.1 e.2

theorem Fits.mono (h : m.Fits P) (hPQ : ∀ {key a}, P key a → Q key a) : m.Fits Q :=
  ⟨h.size_le, fun e he => hPQ (h.holds e he)⟩

theorem Fits.clear (m : RecentMap κ α) : m.clear.Fits P :=
  ⟨Nat.zero_le _, fun _ he => by simp [RecentMap.clear] at he⟩

variable [BEq κ] [LawfulBEq κ]

theorem mem_others {e : κ × α} : e ∈ m.others key ↔ e ∈ m.entries ∧ e.1 ≠ key := by
  simp [others]

/-- What is found was there, and moves to the front. -/
theorem get?_eq_some (h : m.get? key = some (a, m')) :
    (key, a) ∈ m.entries ∧ m' = { m with entries := (key, a) :: m.others key } := by
  obtain ⟨found, hfound, heq⟩ := Option.map_eq_some_iff.mp h
  obtain ⟨rfl, rfl⟩ := Prod.mk.inj heq
  obtain ⟨front, back, hentries, -⟩ := List.lookup_eq_some_iff.mp hfound
  exact ⟨by simp [hentries], rfl⟩

/-- Nothing but the order changes when a value is found. -/
theorem Fits.get? (h : m.Fits P) (hget : m.get? key = some (a, m')) :
    m'.Fits P ∧ m'.capacity = m.capacity ∧ P key a := by
  obtain ⟨hmem, rfl⟩ := get?_eq_some hget
  have hfound := h.holds _ hmem
  refine ⟨⟨?_, fun e he => ?_⟩, rfl, hfound⟩
  · have hless : (m.others key).length < m.entries.length :=
      List.length_filter_lt_length_iff_exists.mpr ⟨_, hmem, by simp⟩
    exact Nat.le_trans hless h.size_le
  · rcases List.mem_cons.mp he with rfl | he
    · exact hfound
    · exact h.holds e (mem_others.mp he).1

theorem Fits.put (h : m.Fits P) (ha : P key a) : (m.put key a).Fits P := by
  refine ⟨List.length_take_le _ _, fun e he => ?_⟩
  rcases List.mem_cons.mp (List.mem_of_mem_take he) with rfl | he
  · exact ha
  · exact h.holds e (mem_others.mp he).1

/-- What was just put is found, if there is room for it. -/
theorem exists_get?_put (h : 0 < m.capacity) (key : κ) (a : α) :
    ∃ m', (m.put key a).get? key = some (a, m') := by
  obtain ⟨n, hn⟩ := Nat.exists_eq_succ_of_ne_zero (Nat.ne_of_gt h)
  simp [RecentMap.put, RecentMap.get?, hn]

omit [LawfulBEq κ] in
/-- It is the most recent one. -/
theorem head?_put (h : 0 < m.capacity) (key : κ) (a : α) :
    (m.put key a).entries.head? = some (key, a) := by
  obtain ⟨n, hn⟩ := Nat.exists_eq_succ_of_ne_zero (Nat.ne_of_gt h)
  simp [RecentMap.put, hn]

/-! ## Keys -/

/-- The keys of a map, the most recently used one first. -/
def keys (m : RecentMap κ α) : List κ := m.entries.map (·.1)

/-- Some keys without one. -/
def without (ks : List κ) (key : κ) : List κ := ks.filter fun k => !(k == key)

@[simp] theorem without_cons_self (key : κ) (ks : List κ) :
    without (key :: ks) key = without ks key := by
  simp [without]

theorem without_cons_of_ne {k key : κ} (h : k ≠ key) (ks : List κ) :
    without (k :: ks) key = k :: without ks key := by
  simp [without, h]

omit [LawfulBEq κ] in
theorem without_without_self (ks : List κ) (key : κ) :
    without (without ks key) key = without ks key := by
  simp [without]

omit [LawfulBEq κ] in
theorem without_comm (ks : List κ) (k key : κ) :
    without (without ks k) key = without (without ks key) k := by
  simp only [without, List.filter_filter, Bool.and_comm]

theorem without_eq_self {ks : List κ} {key : κ} (h : key ∉ ks) : without ks key = ks := by
  rw [without, List.filter_eq_self]
  intro k hk
  rw [Bool.not_eq_true', beq_eq_false_iff_ne]
  rintro rfl
  exact h hk

omit [LawfulBEq κ] in
theorem keys_others (m : RecentMap κ α) (key : κ) :
    (m.others key).map (·.1) = without m.keys key := by
  simp [others, keys, without, List.filter_map, Function.comp_def]

omit [BEq κ] [LawfulBEq κ] in
theorem length_keys (m : RecentMap κ α) : m.keys.length = m.size :=
  List.length_map ..

theorem length_without_lt {ks : List κ} {key : κ} (h : key ∈ ks) :
    (without ks key).length < ks.length :=
  List.length_filter_lt_length_iff_exists.mpr ⟨key, h, by simp⟩

theorem get?_eq_none_iff : m.get? key = none ↔ key ∉ m.keys := by
  rw [RecentMap.get?, Option.map_eq_none_iff, List.lookup_eq_none_iff, keys, List.mem_map]
  constructor
  · rintro h ⟨e, he, rfl⟩
    simpa using h e he
  · intro h e he
    simpa using fun hkey => h ⟨e, he, Eq.symm hkey⟩

theorem keys_get? (h : m.get? key = some (a, m')) : m'.keys = key :: without m.keys key := by
  obtain ⟨-, rfl⟩ := get?_eq_some h
  rw [keys, List.map_cons, keys_others]

omit [LawfulBEq κ] in
theorem keys_put (m : RecentMap κ α) (key : κ) (a : α) :
    (m.put key a).keys = (key :: without m.keys key).take m.capacity := by
  rw [keys, put, List.map_take, List.map_cons, keys_others]

/-! ## The order of use -/

/-- The keys used most recently, up to a number; `uses` has the latest use first. -/
def recent (capacity : Nat) (uses : List κ) : List κ := uses.eraseDups.take capacity

omit [LawfulBEq κ] in
@[simp] theorem recent_nil (capacity : Nat) : recent capacity ([] : List κ) = [] :=
  List.take_nil

omit [LawfulBEq κ] in
theorem length_recent (capacity : Nat) (uses : List κ) :
    (recent capacity uses).length = min capacity uses.eraseDups.length :=
  List.length_take

/-- Leaving out a key and leaving out repetitions can be exchanged. -/
theorem eraseDups_without (key : κ) :
    ∀ uses : List κ, (without uses key).eraseDups = without uses.eraseDups key
  | [] => rfl
  | k :: uses => by
    have ih := eraseDups_without key (without uses k)
    have hcons : (k :: uses).eraseDups = k :: (without uses k).eraseDups := List.eraseDups_cons
    by_cases hk : k = key
    · subst hk
      rw [hcons, without_cons_self, without_cons_self, ← ih, without_without_self]
    · rw [hcons, without_cons_of_ne hk, without_cons_of_ne hk, ← ih, without_comm]
      exact List.eraseDups_cons
termination_by uses => uses.length
decreasing_by exact Nat.lt_succ_of_le (List.length_filter_le _ _)

theorem eraseDups_cons_eq (key : κ) (uses : List κ) :
    (key :: uses).eraseDups = key :: without uses.eraseDups key := by
  rw [List.eraseDups_cons, ← eraseDups_without]
  rfl

/-- Of different keys only one is left out. -/
theorem take_without_take {ks : List κ} (h : ks.Nodup) (key : κ) (n : Nat) :
    (without (ks.take (n + 1)) key).take n = (without ks key).take n := by
  induction ks generalizing n with
  | nil => rfl
  | cons k ks ih =>
    obtain ⟨hk, hks⟩ := List.nodup_cons.mp h
    rw [List.take_succ_cons]
    by_cases hkey : k = key
    · subst hkey
      have htake : k ∉ ks.take n := fun hmem => hk (List.mem_of_mem_take hmem)
      rw [without_cons_self, without_cons_self, without_eq_self htake, without_eq_self hk,
        List.take_take, Nat.min_self]
    · rw [without_cons_of_ne hkey, without_cons_of_ne hkey]
      cases n with
      | zero => rfl
      | succ n => rw [List.take_succ_cons, List.take_succ_cons, ih hks]

/-- A use of a key brings it to the front. -/
theorem recent_cons (capacity : Nat) (key : κ) (uses : List κ) :
    (key :: without (recent capacity uses) key).take capacity = recent capacity (key :: uses) := by
  rw [recent, recent, eraseDups_cons_eq]
  cases capacity with
  | zero => rfl
  | succ n => rw [List.take_succ_cons, List.take_succ_cons, take_without_take (nodup_eraseDups uses)]

/-- If it was recent before, nothing is forgotten. -/
theorem recent_cons_of_mem {capacity : Nat} {key : κ} {uses : List κ}
    (h : key ∈ recent capacity uses) :
    recent capacity (key :: uses) = key :: without (recent capacity uses) key := by
  rw [← recent_cons, List.take_of_length_le]
  have hless := length_without_lt h
  have hroom := length_recent capacity uses
  rw [List.length_cons]
  omega

end CodeAtlas.RecentMap
