import CodeAtlas.Graph.CallGraph
import Mathlib.Data.List.Chain

/-!
# Chains of calls

Two views of how one name leads to another : `Steps` counts the calls, `Walk` lists the
names, the last one first as the search for paths keeps them (`walk_iff_isChain`). The
number of calls of a shortest chain is the distance of a name (`IsDist`), and a shortest
chain meets no name twice (`IsDist.exists_walk`).
-/

namespace CodeAtlas.Query

open CodeAtlas.Graph

/-- A name is met after some calls from a start. -/
inductive Steps (g : CallGraph) (start : String) : Nat → String → Prop
  | zero : Steps g start 0 start
  | succ {n : Nat} {a b : String} (h : Steps g start n a) (hb : b ∈ g.callees a) :
    Steps g start (n + 1) b

/-- The least number of calls after which a name is met. -/
def IsDist (g : CallGraph) (start : String) (n : Nat) (v : String) : Prop :=
  Steps g start n v ∧ ∀ j, Steps g start j v → n ≤ j

/-- The names of a chain of calls, the last one first. -/
inductive Walk (g : CallGraph) (start : String) : List String → Prop
  | single : Walk g start [start]
  | step {a b : String} {p : List String} (h : Walk g start (a :: p)) (hb : b ∈ g.callees a) :
    Walk g start (b :: a :: p)

variable {g : CallGraph} {start : String}

theorem IsDist.unique {n m : Nat} {v : String} (h : IsDist g start n v) (h' : IsDist g start m v) :
    n = m :=
  Nat.le_antisymm (h.2 m h'.1) (h'.2 n h.1)

/-- A chain of calls goes back to the start, each name being called by the next. -/
theorem walk_iff_isChain {p : List String} :
    Walk g start p ↔ p.IsChain (fun b a => b ∈ g.callees a) ∧ p.getLast? = some start := by
  constructor
  · intro h
    induction h with
    | single => exact ⟨List.isChain_singleton start, rfl⟩
    | step _ hb ih => exact ⟨List.isChain_cons_cons.mpr ⟨hb, ih.1⟩, ih.2⟩
  · rintro ⟨hchain, hlast⟩
    induction p with
    | nil => simp at hlast
    | cons b p ih =>
      cases p with
      | nil =>
        obtain rfl : b = start := by simpa using hlast
        exact Walk.single
      | cons a p =>
        obtain ⟨hb, hchain⟩ := List.isChain_cons_cons.mp hchain
        exact (ih hchain hlast).step hb

theorem Walk.steps {v : String} {p : List String} (h : Walk g start (v :: p)) :
    Steps g start p.length v := by
  generalize hq : v :: p = q at h
  induction h generalizing v p with
  | single =>
    obtain ⟨rfl, rfl⟩ := List.cons.inj hq
    exact Steps.zero
  | step _ hb ih =>
    obtain ⟨rfl, rfl⟩ := List.cons.inj hq
    exact (ih rfl).succ hb

/-- A call before the last name of a shortest chain is the end of a shortest chain. -/
theorem IsDist.pred {n : Nat} {v : String} (h : IsDist g start (n + 1) v) :
    ∃ u, IsDist g start n u ∧ v ∈ g.callees u := by
  obtain ⟨hsteps, hleast⟩ := h
  cases hsteps with
  | @succ _ u _ hu hv =>
    refine ⟨u, ⟨hu, fun j hj => ?_⟩, hv⟩
    have := hleast (j + 1) (hj.succ hv)
    omega

/-- A shortest chain meets every name once, and all but its last name earlier. -/
theorem IsDist.exists_walk {n : Nat} {v : String} (h : IsDist g start n v) :
    ∃ p, Walk g start (v :: p) ∧ p.length = n ∧ (v :: p).Nodup ∧
      ∀ x ∈ p, ∃ j < n, Steps g start j x := by
  induction n generalizing v with
  | zero =>
    cases h.1
    exact ⟨[], Walk.single, rfl, by simp, by simp⟩
  | succ n ih =>
    obtain ⟨u, hu, hv⟩ := h.pred
    obtain ⟨p, hwalk, hlen, hnodup, hearlier⟩ := ih hu
    have hmet : ∀ x ∈ u :: p, ∃ j < n + 1, Steps g start j x := by
      intro x hx
      rcases List.mem_cons.mp hx with rfl | hx
      · exact ⟨n, Nat.lt_succ_self n, hu.1⟩
      · obtain ⟨j, hj, hsteps⟩ := hearlier x hx
        exact ⟨j, by omega, hsteps⟩
    refine ⟨u :: p, hwalk.step hv, by simp [hlen], List.nodup_cons.mpr ⟨fun hmem => ?_, hnodup⟩,
      hmet⟩
    obtain ⟨j, hj, hsteps⟩ := hmet v hmem
    have := h.2 j hsteps
    omega

end CodeAtlas.Query
