import CodeAtlas.Proofs.Reachable

/-!
# Names within reach, with a queue

Names within reach can be searched for with one queue in place of levels (`ReachQueue`) : a name
is taken out with its depth, and those of its callees that were not met before are put at the
end, one deeper. The queue may grow while it is worked off. But names are met only below the cap,
so a round either brings the search nearer to the cap or shortens the queue
(`nearer_or_shorter_of_next?`), and the search ends (`drain`).

In the midst of a level the queue holds what is left of the level, and behind it what was met
from it so far. So a level is worked off as `reachFrom` does it (`drain_level`), also where the
cap is reached on the way and the rest of the queue is given up (`drain_of_full`). What is
recorded in the end is what `reachable` records (`drain_init`).
-/

namespace CodeAtlas.Query

open CodeAtlas.Graph

variable {g : CallGraph} {maxDepth : Nat}

/-- A search under way. -/
structure ReachQueue where
  /-- The names met so far. -/
  depths : Depths
  /-- The queue, of names with their depths. -/
  waiting : List (String × Nat)

namespace ReachQueue

/-- Before the first round the start is met and waits, if it is a node. -/
def init (g : CallGraph) (start : String) : ReachQueue :=
  if g.contains start then ⟨(∅ : Depths).insert start 0, [(start, 0)]⟩ else ⟨∅, []⟩

/-- Meet a name at a depth, which then waits; one that was met before stays as it is. -/
def meet (depth : Nat) (q : ReachQueue) (name : String) : ReachQueue :=
  if q.depths.contains name then q
  else ⟨q.depths.insert name depth, q.waiting ++ [(name, depth)]⟩

/-- One round of a search. There is none if nothing waits, or if the cap is reached. -/
def next? (g : CallGraph) (maxDepth : Nat) (q : ReachQueue) : Option ReachQueue :=
  match q.waiting with
  | [] => none
  | (name, depth) :: waiting =>
    if reachCap ≤ q.depths.size then none
    else if maxDepth ≤ depth then some ⟨q.depths, waiting⟩
    else some ((g.callees name).foldl (meet (depth + 1)) ⟨q.depths, waiting⟩)

/-! ## The end of the search -/

theorem meet_eq_or_size_lt (depth : Nat) (q : ReachQueue) (name : String) :
    q.meet depth name = q ∨ q.depths.size < (q.meet depth name).depths.size := by
  unfold meet
  split_ifs with hmem
  · exact .inl rfl
  · refine .inr ?_
    rw [Std.ExtTreeMap.size_insert, if_neg hmem]
    exact Nat.lt_succ_self _

theorem foldl_meet_eq_or_size_lt (depth : Nat) (q : ReachQueue) (names : List String) :
    names.foldl (meet depth) q = q ∨
      q.depths.size < (names.foldl (meet depth) q).depths.size := by
  induction names generalizing q with
  | nil => exact .inl rfl
  | cons name names ih =>
    rw [List.foldl_cons]
    rcases meet_eq_or_size_lt depth q name with hsame | hmore
    · rw [hsame]
      exact ih q
    · rcases ih (q.meet depth name) with hsame | hmore'
      · rw [hsame]
        exact .inr hmore
      · exact .inr (Nat.lt_trans hmore hmore')

/-- What a round does to the bounds of a search. -/
theorem nearer_or_shorter_of_next? {q q' : ReachQueue} (h : q.next? g maxDepth = some q') :
    reachCap - q'.depths.size < reachCap - q.depths.size ∨
      q'.depths.size = q.depths.size ∧ q'.waiting.length < q.waiting.length := by
  obtain ⟨depths, waiting⟩ := q
  rcases waiting with _ | ⟨⟨name, depth⟩, waiting⟩
  · cases h
  · dsimp only [next?] at h
    split_ifs at h with hcap hdeep
    · rw [← Option.some.inj h]
      exact .inr ⟨rfl, Nat.lt_succ_self _⟩
    · rw [← Option.some.inj h]
      rcases foldl_meet_eq_or_size_lt (depth + 1) ⟨depths, waiting⟩ (g.callees name) with
        hsame | hmore
      · rw [hsame]
        exact .inr ⟨rfl, Nat.lt_succ_self _⟩
      · refine .inl ?_
        dsimp only at hcap hmore ⊢
        omega

/-- What is recorded when there is no further round. -/
def drain (g : CallGraph) (maxDepth : Nat) (q : ReachQueue) : Depths :=
  match _h : q.next? g maxDepth with
  | none => q.depths
  | some q' => drain g maxDepth q'
termination_by (reachCap - q.depths.size, q.waiting.length)
decreasing_by
  rcases nearer_or_shorter_of_next? _h with hnearer | ⟨hsize, hshorter⟩
  · exact .left _ _ hnearer
  · rw [hsize]
    exact .right _ hshorter

theorem drain_of_next?_eq_none {q : ReachQueue} (h : q.next? g maxDepth = none) :
    q.drain g maxDepth = q.depths := by
  rw [drain]
  split <;> simp_all

theorem drain_of_next?_eq_some {q q' : ReachQueue} (h : q.next? g maxDepth = some q') :
    q.drain g maxDepth = q'.drain g maxDepth := by
  rw [drain]
  split <;> simp_all

theorem drain_nil (depths : Depths) : drain g maxDepth ⟨depths, []⟩ = depths :=
  drain_of_next?_eq_none rfl

/-- Once the cap is reached, what waits is given up. -/
theorem drain_of_full {q : ReachQueue} (h : reachCap ≤ q.depths.size) :
    q.drain g maxDepth = q.depths := by
  refine drain_of_next?_eq_none ?_
  unfold next?
  split
  · rfl
  · rw [if_pos h]

/-- Names at the last depth are taken out one by one. -/
theorem drain_deep {depth : Nat} (hdepth : maxDepth ≤ depth) (level : List String)
    (depths : Depths) : drain g maxDepth ⟨depths, level.map (·, depth)⟩ = depths := by
  induction level with
  | nil => exact drain_nil depths
  | cons name level ih =>
    by_cases hcap : reachCap ≤ depths.size
    · exact drain_of_full hcap
    · refine (drain_of_next?_eq_some ?_).trans ih
      rw [next?, List.map_cons]
      dsimp only
      rw [if_neg hcap, if_pos hdepth]

/-! ## A level in the queue -/

/-- A search in the midst of a level : the rest of the level waits, and then what was met from it
so far. -/
def within (depth : Nat) (level : List String) (r : Reach) : ReachQueue :=
  ⟨r.depths, level.map (·, depth) ++ r.met.map (·, depth + 1)⟩

theorem meet_within (depth : Nat) (level : List String) (r : Reach) (name : String) :
    (within depth level r).meet (depth + 1) name = within depth level (r.meet (depth + 1) name) := by
  by_cases hmem : r.depths.contains name
  · rw [meet, Reach.meet, if_pos hmem, if_pos (by exact hmem)]
  · rw [meet, Reach.meet, if_neg hmem, if_neg (by exact hmem)]
    simp [within]

theorem foldl_meet_within (depth : Nat) (level : List String) (r : Reach) (names : List String) :
    names.foldl (meet (depth + 1)) (within depth level r) =
      within depth level (names.foldl (Reach.meet (depth + 1)) r) := by
  induction names generalizing r with
  | nil => rfl
  | cons name names ih => rw [List.foldl_cons, List.foldl_cons, meet_within, ih]

/-- A round of the queue expands the next name of the level. -/
theorem drain_within_cons {depth : Nat} (hdepth : depth < maxDepth) (name : String)
    (level : List String) (r : Reach) :
    (within depth (name :: level) r).drain g maxDepth =
      (within depth level (r.expand g (depth + 1) name)).drain g maxDepth := by
  unfold Reach.expand
  split_ifs with hcap
  · rw [drain_of_full hcap, drain_of_full hcap]
    rfl
  · refine drain_of_next?_eq_some ?_
    rw [← foldl_meet_within, next?, within, List.map_cons, List.cons_append]
    dsimp only
    rw [if_neg hcap, if_neg (Nat.not_le_of_lt hdepth), within]

theorem drain_within {depth : Nat} (hdepth : depth < maxDepth) (level : List String) (r : Reach) :
    (within depth level r).drain g maxDepth =
      (within depth [] (level.foldl (Reach.expand g (depth + 1)) r)).drain g maxDepth := by
  induction level generalizing r with
  | nil => rfl
  | cons name level ih => rw [drain_within_cons hdepth, ih, List.foldl_cons]

/-- From the beginning of a level on, the queue records what the levels record. -/
theorem drain_level (levels depth : Nat) (level : List String) (depths : Depths) :
    drain g (depth + levels) ⟨depths, level.map (·, depth)⟩ =
      reachFrom g levels (depth + 1) level depths := by
  induction levels generalizing depth level depths with
  | zero => exact drain_deep (Nat.le_refl depth) level depths
  | succ levels ih =>
    cases level with
    | nil => exact drain_nil depths
    | cons name level =>
      let r := (name :: level).foldl (Reach.expand g (depth + 1)) { depths }
      have hlevel := drain_within (g := g) (Nat.lt_add_of_pos_right levels.succ_pos : depth < _)
        (name :: level) { depths }
      have hnext := ih (depth + 1) r.met r.depths
      rw [Nat.add_assoc, Nat.add_comm 1] at hnext
      simp only [within, List.map_nil, List.append_nil, List.nil_append] at hlevel
      exact hlevel.trans hnext

end ReachQueue

/-- The search with a queue records the names that `reachable` records, at the same depths. -/
theorem drain_init (g : CallGraph) (start : String) (maxDepth : Nat) :
    (ReachQueue.init g start).drain g maxDepth = reachable g start maxDepth := by
  unfold ReachQueue.init reachable
  split_ifs
  · rw [← ReachQueue.drain_level, Nat.zero_add]
    rfl
  · exact ReachQueue.drain_nil ∅

end CodeAtlas.Query
