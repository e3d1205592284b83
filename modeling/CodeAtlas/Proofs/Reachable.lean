import CodeAtlas.Proofs.Walks
import CodeAtlas.Query.Reachable
import Mathlib.Tactic.SplitIfs

/-!
# Depths are distances

`reachable` records distances, also when the cap stops it (`charted_reachable`) : a name is
recorded at a depth only while the cap is not reached, and up to then every name at a
smaller distance has been recorded. What is missing from the answer although it is near
enough is missing because of the cap, and even then no level is left out before one of
which a name is recorded (`gapless_reachable`).

`Surveyed` is what holds between two levels. Within a level `Spreading` compares the
names met with those known before it.
-/

namespace CodeAtlas.Query

open CodeAtlas.Graph

variable {g : CallGraph} {start : String}

/-! ## One level -/

namespace Reach

theorem getElem?_meet (depth : Nat) (r : Reach) (name v : String) :
    (r.meet depth name).depths[v]? =
      r.depths[v]?.or (if v = name then some depth else none) := by
  unfold meet
  split_ifs with hmem hv hv
  · subst hv
    obtain ⟨k, hk⟩ := Option.isSome_iff_exists.mp
      (Std.ExtTreeMap.contains_eq_isSome_getElem?.symm.trans hmem)
    rw [hk, Option.some_or]
  · rw [Option.or_none]
  · subst hv
    rw [Std.ExtTreeMap.getElem?_insert_self,
      Std.ExtTreeMap.getElem?_eq_none_of_contains_eq_false (Bool.eq_false_iff.mpr hmem),
      Option.none_or]
  · rw [Std.ExtTreeMap.getElem?_insert, if_neg, Option.or_none]
    rw [Std.LawfulEqCmp.compare_eq_iff_eq]
    exact Ne.symm hv

theorem mem_met_meet {depth : Nat} {r : Reach} {name v : String} :
    v ∈ (r.meet depth name).met ↔ v ∈ r.met ∨ v = name ∧ r.depths[v]? = none := by
  unfold meet
  split_ifs with hmem
  · refine ⟨Or.inl, ?_⟩
    rintro (hv | ⟨rfl, hnone⟩)
    · exact hv
    · simp [Std.ExtTreeMap.contains_eq_isSome_getElem?, hnone] at hmem
  · rw [List.mem_append, List.mem_singleton]
    refine or_congr_right ⟨fun hv => ⟨hv, ?_⟩, And.left⟩
    rw [hv]
    exact Std.ExtTreeMap.getElem?_eq_none_of_contains_eq_false (Bool.eq_false_iff.mpr hmem)

theorem size_le_size_meet (depth : Nat) (r : Reach) (name : String) :
    r.depths.size ≤ (r.meet depth name).depths.size := by
  unfold meet
  split_ifs
  · exact Nat.le_refl _
  · exact Std.ExtTreeMap.size_le_size_insert

theorem getElem?_foldl_meet (depth : Nat) (r : Reach) (names : List String) (v : String) :
    (names.foldl (meet depth) r).depths[v]? =
      r.depths[v]?.or (if v ∈ names then some depth else none) := by
  induction names generalizing r with
  | nil => simp
  | cons name names ih =>
    rw [List.foldl_cons, ih, getElem?_meet, Option.or_assoc]
    congr 1
    by_cases h : v = name <;> simp [h]

theorem mem_met_foldl_meet {depth : Nat} {r : Reach} {names : List String} {v : String} :
    v ∈ (names.foldl (meet depth) r).met ↔ v ∈ r.met ∨ v ∈ names ∧ r.depths[v]? = none := by
  induction names generalizing r with
  | nil => simp
  | cons name names ih =>
    rw [List.foldl_cons, ih, mem_met_meet, getElem?_meet]
    by_cases h : v = name <;> simp [h]

theorem size_le_size_foldl_meet (depth : Nat) (r : Reach) (names : List String) :
    r.depths.size ≤ (names.foldl (meet depth) r).depths.size := by
  induction names generalizing r with
  | nil => exact Nat.le_refl _
  | cons name names ih => exact Nat.le_trans (size_le_size_meet depth r name) (ih _)

/-- What holds within a level once some of its names are expanded : beside the names
known before it there are those just met, all callees of the expanded names, and as long
as the cap is not reached all callees of these. -/
structure Spreading (g : CallGraph) (known : Depths) (depth : Nat) (done : List String)
    (r : Reach) : Prop where
  depths_eq : ∀ v, r.depths[v]? = known[v]?.or (if v ∈ r.met then some depth else none)
  fresh : ∀ v ∈ r.met, known[v]? = none ∧ ∃ u ∈ done, v ∈ g.callees u
  size_le : known.size ≤ r.depths.size
  room : r.met ≠ [] → known.size < reachCap
  closed : r.depths.size < reachCap → ∀ u ∈ done, ∀ v ∈ g.callees u, v ∈ r.depths

variable {known : Depths} {depth : Nat} {done : List String} {r : Reach}

theorem Spreading.init (g : CallGraph) (known : Depths) (depth : Nat) :
    Spreading g known depth [] { depths := known } where
  depths_eq v := by simp
  fresh v hv := by simp at hv
  size_le := Nat.le_refl _
  room h := by simp at h
  closed _ u hu := by simp at hu

theorem Spreading.expand (h : Spreading g known depth done r) (u : String) :
    Spreading g known depth (done ++ [u]) (r.expand g depth u) := by
  unfold Reach.expand
  split_ifs with hcap
  · exact {
      h with
      fresh := fun v hv => by
        obtain ⟨hnone, w, hw, hcall⟩ := h.fresh v hv
        exact ⟨hnone, w, List.mem_append_left _ hw, hcall⟩
      closed := fun hroom => absurd hroom (Nat.not_lt.mpr hcap) }
  · have hsize := size_le_size_foldl_meet depth r (g.callees u)
    refine ⟨fun v => ?_, fun v hv => ?_, Nat.le_trans h.size_le hsize, fun _ => ?_,
      fun _ w hw v hv => ?_⟩
    · rw [getElem?_foldl_meet, h.depths_eq]
      simp only [mem_met_foldl_meet, h.depths_eq]
      cases known[v]? <;> by_cases hmet : v ∈ r.met <;> simp [hmet]
    · rcases mem_met_foldl_meet.mp hv with hv | ⟨hv, hnone⟩
      · obtain ⟨hnone, w, hw, hcall⟩ := h.fresh v hv
        exact ⟨hnone, w, List.mem_append_left _ hw, hcall⟩
      · rw [h.depths_eq, Option.or_eq_none_iff] at hnone
        exact ⟨hnone.1, u, by simp, hv⟩
    · exact Nat.lt_of_le_of_lt h.size_le (Nat.lt_of_not_le hcap)
    · rw [Std.ExtTreeMap.mem_iff_isSome_getElem?, getElem?_foldl_meet, Option.isSome_or]
      rcases List.mem_append.mp hw with hw | hw
      · have := h.closed (Nat.lt_of_not_le hcap) w hw v hv
        rw [Std.ExtTreeMap.mem_iff_isSome_getElem?] at this
        rw [this, Bool.true_or]
      · rw [List.mem_singleton.mp hw] at hv
        rw [if_pos hv, Option.isSome_some, Bool.or_true]

theorem Spreading.foldl_expand (h : Spreading g known depth done r) (level : List String) :
    Spreading g known depth (done ++ level) (level.foldl (Reach.expand g depth) r) := by
  induction level generalizing done r with
  | nil => simpa using h
  | cons u level ih => simpa using ih (h.expand u)

/-- What is recorded was known before the level or is met on it. -/
theorem Spreading.getElem?_eq_some_iff (h : Spreading g known depth done r) {v : String}
    {k : Nat} : r.depths[v]? = some k ↔ known[v]? = some k ∨ v ∈ r.met ∧ k = depth := by
  rw [h.depths_eq, Option.or_eq_some_iff]
  constructor
  · rintro (hv | ⟨-, hv⟩)
    · exact Or.inl hv
    · split_ifs at hv with hmet
      exact Or.inr ⟨hmet, (Option.some.inj hv).symm⟩
  · rintro (hv | ⟨hmet, rfl⟩)
    · exact Or.inl hv
    · exact Or.inr ⟨(h.fresh v hmet).1, if_pos hmet⟩

/-- What was known before the level stays recorded. -/
theorem Spreading.mem_depths (h : Spreading g known depth done r) {v : String} (hv : v ∈ known) :
    v ∈ r.depths := by
  rw [Std.ExtTreeMap.mem_iff_isSome_getElem?] at hv ⊢
  rw [h.depths_eq, Option.isSome_or, hv, Bool.true_or]

end Reach

/-! ## From level to level -/

theorem reachFrom_nil (g : CallGraph) (levels depth : Nat) (depths : Depths) :
    reachFrom g levels depth [] depths = depths := by
  cases levels <;> rfl

/-- Every search beyond a level goes on from what the level meets and records. -/
theorem exists_spreading (g : CallGraph) (depth : Nat) (level : List String) (depths : Depths) :
    ∃ r, Reach.Spreading g depths depth level r ∧ ∀ levels,
      reachFrom g (levels + 1) depth level depths =
        reachFrom g levels (depth + 1) r.met r.depths := by
  refine ⟨_, (Reach.Spreading.init g depths depth).foldl_expand level, fun levels => ?_⟩
  cases level with
  | nil => exact (reachFrom_nil g levels (depth + 1) depths).symm
  | cons u level => rfl

/-- The names recorded are recorded with their distances, and as long as the cap is not
reached no name up to a depth is missing. -/
structure Charted (g : CallGraph) (start : String) (depth : Nat) (depths : Depths) : Prop where
  sound : ∀ {v k}, depths[v]? = some k → k ≤ depth ∧ IsDist g start k v
  complete : depths.size < reachCap → ∀ v, ∀ k ≤ depth, Steps g start k v → v ∈ depths

/-- What holds between two levels : the names up to it are charted, and it holds those of
the last depth. -/
structure Surveyed (g : CallGraph) (start : String) (depth : Nat) (level : List String)
    (depths : Depths) : Prop extends Charted g start depth depths where
  mem_level : ∀ {v}, v ∈ level ↔ depths[v]? = some depth

namespace Surveyed

variable {depth : Nat} {level : List String} {depths : Depths}

theorem init (g : CallGraph) (start : String) :
    Surveyed g start 0 [start] ((∅ : Depths).insert start 0) := by
  have hget : ∀ v, ((∅ : Depths).insert start 0)[v]? = if start = v then some 0 else none := by
    intro v
    simp [Std.ExtTreeMap.getElem?_insert]
  refine ⟨⟨fun {v k} h => ?_, fun _ v k hk hsteps => ?_⟩, fun {v} => ?_⟩
  · rw [hget] at h
    split_ifs at h with hv
    obtain rfl := Option.some.inj h
    exact ⟨Nat.le_refl 0, hv ▸ Steps.zero, fun _ _ => Nat.zero_le _⟩
  · obtain rfl := Nat.le_zero.mp hk
    cases hsteps
    exact Std.ExtTreeMap.mem_insert_self
  · rw [hget, List.mem_singleton]
    by_cases hv : start = v <;> simp [hv, eq_comm]

variable {r : Reach}

/-- A name met from a level is one call further away than the level. -/
theorem isDist_of_mem_met (h : Surveyed g start depth level depths)
    (hr : Reach.Spreading g depths (depth + 1) level r) {v : String} (hv : v ∈ r.met) :
    IsDist g start (depth + 1) v := by
  obtain ⟨hnone, u, hu, hcall⟩ := hr.fresh v hv
  refine ⟨(h.sound (h.mem_level.mp hu)).2.1.succ hcall, fun j hj => ?_⟩
  -- the cap was not reached when the name was met, so no name up to `depth` was missing
  by_contra hlt
  have hknown := h.complete (hr.room (List.ne_nil_of_mem hv)) v j (by omega) hj
  rw [Std.ExtTreeMap.mem_iff_isSome_getElem?, hnone] at hknown
  exact Bool.false_ne_true hknown

/-- Without the cap no name is missing from the next level. -/
theorem mem_of_steps (h : Surveyed g start depth level depths)
    (hr : Reach.Spreading g depths (depth + 1) level r) (hroom : r.depths.size < reachCap)
    {v : String} {k : Nat} (hk : k ≤ depth + 1) (hsteps : Steps g start k v) : v ∈ r.depths := by
  have hknown := h.complete (Nat.lt_of_le_of_lt hr.size_le hroom)
  rcases Nat.lt_or_ge depth k with hlt | hle
  · obtain rfl : k = depth + 1 := by omega
    cases hsteps with
    | @succ _ u _ hu hcall =>
      obtain ⟨j, hj⟩ := Option.isSome_iff_exists.mp
        (Std.ExtTreeMap.mem_iff_isSome_getElem?.mp (hknown u depth (Nat.le_refl _) hu))
      obtain ⟨hjle, hdist⟩ := h.sound hj
      -- a caller met before the last level had its callees met by then
      rcases Nat.lt_or_eq_of_le hjle with hjlt | rfl
      · exact hr.mem_depths (hknown v (j + 1) hjlt (hdist.1.succ hcall))
      · exact hr.closed hroom u (h.mem_level.mpr hj) v hcall
  · exact hr.mem_depths (hknown v k hle hsteps)

/-- The next level. -/
theorem next (h : Surveyed g start depth level depths)
    (hr : Reach.Spreading g depths (depth + 1) level r) :
    Surveyed g start (depth + 1) r.met r.depths := by
  refine ⟨⟨fun {v k} hv => ?_, fun hroom v k => h.mem_of_steps hr hroom⟩, fun {v} => ?_⟩
  · rcases hr.getElem?_eq_some_iff.mp hv with hv | ⟨hmet, rfl⟩
    · exact ⟨Nat.le_succ_of_le (h.sound hv).1, (h.sound hv).2⟩
    · exact ⟨Nat.le_refl _, h.isDist_of_mem_met hr hmet⟩
  · rw [hr.getElem?_eq_some_iff]
    constructor
    · intro hmet
      exact Or.inr ⟨hmet, rfl⟩
    · rintro (hv | ⟨hmet, -⟩)
      · have := (h.sound hv).1
        omega
      · exact hmet

/-- The search goes on from a level with what is charted so far. -/
theorem reachFrom (h : Surveyed g start depth level depths) (levels : Nat) :
    Charted g start (depth + levels) (reachFrom g levels (depth + 1) level depths) := by
  induction levels generalizing depth level depths with
  | zero => exact h.toCharted
  | succ levels ih =>
    obtain ⟨r, hr, hnext⟩ := exists_spreading g (depth + 1) level depths
    rw [hnext, Nat.add_comm levels, ← Nat.add_assoc]
    exact ih (h.next hr)

end Surveyed

/-- The names within reach have their distances, and one that is missing although it is
near enough is missing because of the cap. -/
theorem charted_reachable (hstart : g.contains start) (maxDepth : Nat) :
    Charted g start maxDepth (reachable g start maxDepth) := by
  have h := (Surveyed.init g start).reachFrom maxDepth
  rw [Nat.zero_add] at h
  rw [reachable, if_pos hstart]
  exact h

/-! ## No gaps -/

/-- No name that is nearer than a recorded one is missing. -/
def Gapless (g : CallGraph) (start : String) (depths : Depths) : Prop :=
  ∀ (v : String) (k : Nat), depths[v]? = some k → ∀ u, ∀ j < k, Steps g start j u → u ∈ depths

namespace Gapless

variable {depth : Nat} {level : List String} {depths : Depths}

theorem init (g : CallGraph) (start : String) :
    Gapless g start ((∅ : Depths).insert start 0) := by
  intro v k hv u j hj
  obtain rfl : k = 0 := Nat.le_zero.mp (((Surveyed.init g start).sound hv).1)
  exact absurd hj (Nat.not_lt_zero j)

/-- A name is met only while the cap is not reached, so when all nearer ones are recorded. -/
theorem next (hgap : Gapless g start depths) (h : Surveyed g start depth level depths) {r : Reach}
    (hr : Reach.Spreading g depths (depth + 1) level r) : Gapless g start r.depths := by
  intro v k hv u j hj hsteps
  refine hr.mem_depths ?_
  rcases hr.getElem?_eq_some_iff.mp hv with hv | ⟨hmet, rfl⟩
  · exact hgap v k hv u j hj hsteps
  · exact h.complete (hr.room (List.ne_nil_of_mem hmet)) u j (Nat.le_of_lt_succ hj) hsteps

theorem reachFrom (hgap : Gapless g start depths) (h : Surveyed g start depth level depths)
    (levels : Nat) : Gapless g start (reachFrom g levels (depth + 1) level depths) := by
  induction levels generalizing depth level depths with
  | zero => exact hgap
  | succ levels ih =>
    obtain ⟨r, hr, hnext⟩ := exists_spreading g (depth + 1) level depths
    rw [hnext]
    exact ih (hgap.next h hr) (h.next hr)

end Gapless

/-- Wherever the search stops, it has recorded all names nearer than the last one. -/
theorem gapless_reachable (hstart : g.contains start) (maxDepth : Nat) :
    Gapless g start (reachable g start maxDepth) := by
  have h := (Gapless.init g start).reachFrom (Surveyed.init g start) maxDepth
  rw [reachable, if_pos hstart]
  exact h

/-- A name within reach, but not the start, is called by one that is a call nearer. -/
theorem exists_caller_of_reachable (hstart : g.contains start) {maxDepth k : Nat} {v : String}
    (hv : (reachable g start maxDepth)[v]? = some (k + 1)) :
    ∃ u, (reachable g start maxDepth)[u]? = some k ∧ v ∈ g.callees u := by
  have hcharted := charted_reachable hstart maxDepth
  obtain ⟨u, hu, hcall⟩ := (hcharted.sound hv).2.pred
  have hmem := gapless_reachable hstart maxDepth v _ hv u k (Nat.lt_succ_self k) hu.1
  obtain ⟨j, hj⟩ := Option.isSome_iff_exists.mp (Std.ExtTreeMap.mem_iff_isSome_getElem?.mp hmem)
  rw [hu.unique (hcharted.sound hj).2]
  exact ⟨u, hj, hcall⟩

end CodeAtlas.Query
