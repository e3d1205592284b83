import CodeAtlas.Proofs.QueryBounds
import Mathlib.Data.List.Induction
import Mathlib.Tactic.SplitIfs

/-!
# The order of the paths

Paths are listed the shorter first, and of two that are equally long the one first that turns
to the earlier callee where they part (`CallGraph.Precedes`). A callee that is called again
counts where it is called first.

Only the way in which a level is made from the one before is behind this. A partial path is
extended callee by callee, so its extensions are in order (`pairwise_extensions`), and two
partial paths that have parted stay in their order however they go on
(`TurnsEarlier.append`). So every level is in order, and what arrives on one level is shorter
than what arrives on the next (`pairwise_arrivals`).

No two paths precede each other (`Precedes.asymm`), so the order says which of two listed
paths comes first, and the paths that a limit leaves are the first of all
(`paths_in_order`).
-/

namespace CodeAtlas.Graph.CallGraph

/-- Two lists begin with the same names, and where they part the first turns to the earlier
callee of the last name that they share. -/
inductive TurnsEarlier (g : CallGraph) : List String → List String → Prop
  | here {last a b : String} {p q : List String}
    (h : (g.callees last).idxOf a < (g.callees last).idxOf b) :
    TurnsEarlier g (last :: a :: p) (last :: b :: q)
  | later {v : String} {p q : List String} (h : TurnsEarlier g p q) :
    TurnsEarlier g (v :: p) (v :: q)

/-- A path comes before another if it is shorter, or if it is as long and turns to the earlier
callee where they part. -/
def Precedes (g : CallGraph) (p q : List String) : Prop :=
  p.length < q.length ∨ p.length = q.length ∧ g.TurnsEarlier p q

variable {g : CallGraph} {p q : List String}

namespace TurnsEarlier

/-- Lists that have parted stay in order however they go on. -/
theorem append (h : g.TurnsEarlier p q) (r s : List String) :
    g.TurnsEarlier (p ++ r) (q ++ s) := by
  induction h with
  | here h => exact here h
  | later _ ih => exact later ih

/-- Lists part at their last names. -/
theorem of_last (common : List String) {last a b : String}
    (h : (g.callees last).idxOf a < (g.callees last).idxOf b) :
    g.TurnsEarlier (common ++ [last] ++ [a]) (common ++ [last] ++ [b]) := by
  induction common with
  | nil => exact here h
  | cons v common ih => exact later ih

theorem asymm (h : g.TurnsEarlier p q) : ¬g.TurnsEarlier q p := by
  induction h with
  | @here last a b p q h =>
    intro hback
    cases hback with
    | here hback => exact Nat.lt_asymm h hback
    | later hback =>
      -- both would go on with the same name
      have hab : a = b := by cases hback <;> rfl
      exact Nat.ne_of_lt h (by rw [hab])
  | @later v p q h ih =>
    intro hback
    cases hback with
    | here hback =>
      have hab := Nat.ne_of_lt hback
      cases h <;> exact hab rfl
    | later hback => exact ih hback

end TurnsEarlier

theorem Precedes.asymm (h : g.Precedes p q) : ¬g.Precedes q p := by
  rintro (hback | ⟨hlen, hback⟩)
  · rcases h with h | ⟨h, -⟩ <;> omega
  · rcases h with h | ⟨-, h⟩
    · omega
    · exact h.asymm hback

end CodeAtlas.Graph.CallGraph

namespace CodeAtlas.Query

open CodeAtlas.Graph CallGraph

variable {g : CallGraph} {start target : String}

/-! ## One level -/

/-- The extensions of a partial path are in order. -/
theorem pairwise_extensions (g : CallGraph) (p : List String) :
    (extensions g p).Pairwise fun p q => g.TurnsEarlier p.reverse q.reverse := by
  cases p with
  | nil => exact List.Pairwise.nil
  | cons last before =>
    have hcallees := (pairwise_idxOf_eraseDups (g.callees last)).filter
      fun c => !(last :: before).contains c
    refine List.pairwise_map.mpr (hcallees.imp fun {a b} hab => ?_)
    simp only [List.reverse_cons]
    exact TurnsEarlier.of_last before.reverse hab

/-- If a level is in order, so is the next. -/
theorem pairwise_nextLevel {level : List (List String)}
    (h : level.Pairwise fun p q => g.TurnsEarlier p.reverse q.reverse) :
    (nextLevel g target level).Pairwise fun p q => g.TurnsEarlier p.reverse q.reverse := by
  refine List.pairwise_flatMap.mpr ⟨fun p _ => pairwise_extensions g p, ?_⟩
  refine (h.filter _).imp fun {p q} hpq x hx y hy => ?_
  obtain ⟨-, -, a, -, rfl, -, -⟩ := mem_extensions.mp hx
  obtain ⟨-, -, b, -, rfl, -, -⟩ := mem_extensions.mp hy
  rw [List.reverse_cons, List.reverse_cons]
  exact hpq.append [a] [b]

theorem pairwise_iterate_nextLevel (n : Nat) : ((nextLevel g target)^[n] [[start]]).Pairwise
    fun p q => g.TurnsEarlier p.reverse q.reverse := by
  induction n with
  | zero => exact List.pairwise_singleton _ _
  | succ n ih =>
    rw [Function.iterate_succ_apply']
    exact pairwise_nextLevel ih

/-! ## All levels -/

/-- All that arrives is in order : within a level by the turns, from level to level by the
lengths. -/
theorem pairwise_arrivals (g : CallGraph) (start target : String) (depth : Nat) :
    ((arrivals g target depth [[start]]).map List.reverse).Pairwise g.Precedes := by
  rw [List.pairwise_map, arrivals, List.pairwise_flatMap]
  refine ⟨fun n _ => ?_, List.pairwise_lt_range.imp fun {n m} hlt p hp q hq => Or.inl ?_⟩
  · refine ((pairwise_iterate_nextLevel n).filter _).imp_of_mem fun {p q} hp hq hpq => ?_
    have hlen : p.reverse.length = q.reverse.length := by
      rw [List.length_reverse, List.length_reverse, (steps_of_arrived hp).1,
        (steps_of_arrived hq).1]
    exact Or.inr ⟨hlen, hpq⟩
  · rw [List.length_reverse, List.length_reverse, (steps_of_arrived hp).1, (steps_of_arrived hq).1]
    omega

/-- All simple paths can be listed in order, and the paths found are the first of them. -/
theorem exists_ordered (g : CallGraph) (start target : String) (maxDepth limit : Nat) :
    ∃ all : List (List String), all.Pairwise g.Precedes ∧
      (∀ p, p ∈ all ↔ g.IsSimpleChain start target maxDepth p) ∧
      paths g start target maxDepth limit = all.take limit := by
  by_cases h : g.contains start ∧ g.contains target
  · refine ⟨_, pairwise_arrivals g start target maxDepth,
      fun p => mem_map_reverse_arrivals_iff h.1 h.2, ?_⟩
    rw [paths_eq h.1 h.2, List.map_take]
  · refine ⟨[], List.Pairwise.nil, fun p => ⟨fun hp => ?_, fun hp => ?_⟩, ?_⟩
    · exact absurd hp List.not_mem_nil
    · exact absurd ⟨hp.contains_first, hp.contains_last⟩ h
    · rw [paths_of_not_contains h, List.take_nil]

theorem pairwise_paths (g : CallGraph) (start target : String) (maxDepth limit : Nat) :
    (paths g start target maxDepth limit).Pairwise g.Precedes := by
  obtain ⟨all, hall, -, hpaths⟩ := exists_ordered g start target maxDepth limit
  rw [hpaths]
  exact hall.take

/-- Of two listed paths the one comes first that precedes the other, and the paths listed are
the first of all simple paths in this order. -/
theorem paths_in_order (g : CallGraph) (start target : String) (maxDepth limit : Nat) :
    (∀ i j : Fin (paths g start target maxDepth limit).length,
      i < j ↔ g.Precedes ((paths g start target maxDepth limit).get i)
        ((paths g start target maxDepth limit).get j)) ∧
    ∃ all : List (List String), all.Pairwise g.Precedes ∧
      (∀ p, p ∈ all ↔ g.IsSimpleChain start target maxDepth p) ∧
      paths g start target maxDepth limit = all.take limit := by
  refine ⟨fun i j => ?_, exists_ordered g start target maxDepth limit⟩
  have hordered := List.pairwise_iff_get.mp (pairwise_paths g start target maxDepth limit)
  constructor
  · exact hordered i j
  · intro hprecedes
    rcases Nat.lt_trichotomy i j with hlt | heq | hgt
    · exact hlt
    · rw [Fin.ext heq] at hprecedes
      exact absurd hprecedes hprecedes.asymm
    · exact absurd hprecedes (hordered j i hgt).asymm

end CodeAtlas.Query
