import CodeAtlas.Graph.Attribution
import CodeAtlas.Proofs.Lists
import Mathlib.Data.List.Find
import Mathlib.Data.List.TakeWhile

/-!
# The owner of a line

The pass over the lines finds for each of them the nearest declaration around it
(`lineOwners_eq_map`), whatever spans the declarations have : nested or not, equal, or
empty. Of the functions and methods that contain a line the nearest starts last, then
ends first, then is declared first (`Placed.Nearer`); `nearest?` looks for it among all
of them and knows no other line.

The stack is described by what a line that is still to come finds in it. A declaration
is taken off only once it has ended, so such a line finds on the stack what it would
find among all the declarations that have started (`Sweep.Reached`), and the last one
of these that has not ended is on top.
-/

namespace CodeAtlas.Graph

open CodeAtlas.Facts

/-! ## The nearest declaration -/

/-- Whether a declaration is as near as another to the lines inside both : it starts
later, or starts there too and ends earlier, or has the same span and an earlier or the
same place. -/
def Placed.Nearer (a b : Placed) : Prop :=
  b.1.startLine < a.1.startLine ∨ b.1.startLine = a.1.startLine ∧
    (a.1.endLine < b.1.endLine ∨ a.1.endLine = b.1.endLine ∧ a.2 ≤ b.2)

instance (a b : Placed) : Decidable (a.Nearer b) :=
  inferInstanceAs (Decidable (_ ∨ _))

/-- The functions and methods that contain a line. -/
def around (ds : List Declaration) (line : Nat) : List Placed :=
  ds.zipIdx.filter fun d => d.1.kind.isCallable && d.1.containsLine line

/-- The function or method that contains a line and is as near to it as every other. -/
def nearest? (ds : List Declaration) (line : Nat) : Option Placed :=
  (around ds line).find? fun a => (around ds line).all fun b => decide (a.Nearer b)

namespace Placed

theorem Nearer.refl (a : Placed) : a.Nearer a :=
  Or.inr ⟨rfl, Or.inr ⟨rfl, Nat.le_refl _⟩⟩

theorem Nearer.trans {a b c : Placed} (hab : a.Nearer b) (hbc : b.Nearer c) : a.Nearer c := by
  unfold Nearer at *
  omega

theorem Nearer.total (a b : Placed) : a.Nearer b ∨ b.Nearer a := by
  unfold Nearer
  omega

theorem Nearer.place_eq {a b : Placed} (hab : a.Nearer b) (hba : b.Nearer a) : a.2 = b.2 := by
  unfold Nearer at *
  omega

theorem opensBefore_iff (a b : Placed) : a.opensBefore b ↔ b.Nearer a := by
  simp only [opensBefore, Nearer, Bool.or_eq_true, Bool.and_eq_true, decide_eq_true_eq,
    beq_iff_eq]
  omega

end Placed

theorem mem_around {ds : List Declaration} {line : Nat} {d : Placed} :
    d ∈ around ds line ↔ ds[d.2]? = some d.1 ∧ d.1.kind.isCallable ∧ d.1.containsLine line := by
  simp [around, List.mem_zipIdx_iff_getElem?]

theorem nearest?_eq_some_iff {ds : List Declaration} {line : Nat} {a : Placed} :
    nearest? ds line = some a ↔
      a ∈ around ds line ∧ ∀ b ∈ around ds line, a.Nearer b := by
  constructor
  · intro h
    exact ⟨List.mem_of_find?_eq_some h, by simpa using List.find?_some h⟩
  · rintro ⟨hmem, hnear⟩
    cases h : nearest? ds line with
    | none => exact absurd hnear (by simpa using List.find?_eq_none.mp h a hmem)
    | some c =>
      have hc := List.mem_of_find?_eq_some h
      have hcnear : ∀ b ∈ around ds line, c.Nearer b := by simpa using List.find?_some h
      have hplace := (hnear c hc).place_eq (hcnear a hmem)
      have hdecl : some a.1 = some c.1 := by
        rw [← (mem_around.mp hmem).1, ← (mem_around.mp hc).1, hplace]
      exact congrArg some (Prod.ext (Option.some.inj hdecl).symm hplace.symm)

/-! ## The last candidate around a line -/

theorem mem_candidates {ds : List Declaration} {d : Placed} :
    d ∈ candidates ds ↔ ds[d.2]? = some d.1 ∧ d.1.kind.isCallable := by
  simp [candidates, List.mem_zipIdx_iff_getElem?]

/-- Later candidates are nearer. -/
theorem pairwise_candidates (ds : List Declaration) :
    (candidates ds).Pairwise fun a b => b.Nearer a := by
  have h : (candidates ds).Pairwise fun a b => a.opensBefore b := by
    refine List.pairwise_mergeSort (fun a b c hab hbc => ?_) (fun a b => ?_) _
    · rw [Placed.opensBefore_iff] at *
      exact hbc.trans hab
    · rw [Bool.or_eq_true, Placed.opensBefore_iff, Placed.opensBefore_iff]
      exact Placed.Nearer.total b a
  exact h.imp fun hab => (Placed.opensBefore_iff _ _).mp hab

theorem mem_around_iff_mem_candidates {ds : List Declaration} {line : Nat} {d : Placed} :
    d ∈ around ds line ↔ d ∈ (candidates ds).reverse ∧ d.1.containsLine line := by
  rw [mem_around, List.mem_reverse, mem_candidates, and_assoc]

/-- Of the candidates that contain a line the last is the nearest. -/
theorem find?_candidates (ds : List Declaration) (line : Nat) :
    ((candidates ds).reverse.find? fun d => d.1.containsLine line) = nearest? ds line := by
  symm
  cases h : (candidates ds).reverse.find? fun d => d.1.containsLine line with
  | none =>
    cases hn : nearest? ds line with
    | none => rfl
    | some a =>
      obtain ⟨ha, hline⟩ := mem_around_iff_mem_candidates.mp (nearest?_eq_some_iff.mp hn).1
      exact absurd hline (List.find?_eq_none.mp h a ha)
  | some c =>
    have hline := List.find?_some h
    refine nearest?_eq_some_iff.mpr
      ⟨mem_around_iff_mem_candidates.mpr ⟨List.mem_of_find?_eq_some h, hline⟩, fun b hb => ?_⟩
    obtain ⟨hb, hbline⟩ := mem_around_iff_mem_candidates.mp hb
    have hsorted := List.pairwise_reverse.mpr (pairwise_candidates ds)
    rcases rel_of_find?_eq_some hsorted h hb hbline with rfl | hnear
    · exact Placed.Nearer.refl b
    · exact hnear

/-- The nearest declaration is missing only if no function or method contains the
line. -/
theorem nearest?_eq_none_iff {ds : List Declaration} {line : Nat} :
    nearest? ds line = none ↔ around ds line = [] := by
  simp only [← find?_candidates, List.find?_eq_none, List.eq_nil_iff_forall_not_mem,
    mem_around_iff_mem_candidates, not_and]

/-! ## The pass over the lines -/

namespace Sweep

/-- The pass has come to a line : the candidates are those that have started and those
that wait, and from this line on a line finds on the stack what it finds among all that
have started. -/
def Reached (ds : List Declaration) (line : Nat) (s : Sweep) : Prop :=
  ∃ started, candidates ds = started ++ s.waiting ∧
    (∀ d ∈ started, d.1.startLine ≤ line) ∧
    ∀ later, line ≤ later →
      (s.opened.find? fun d => decide (later ≤ d.1.endLine)) =
        started.reverse.find? fun d => decide (later ≤ d.1.endLine)

theorem reached_start (ds : List Declaration) : Reached ds 0 ⟨candidates ds, []⟩ :=
  ⟨[], rfl, by simp, fun _ _ => rfl⟩

/-- What has ended before a line is found by no later one. -/
theorem find?_dropWhile_ended {line later : Nat} (h : line ≤ later) (l : List Placed) :
    ((l.dropWhile fun d => decide (d.1.endLine < line)).find?
      fun d => decide (later ≤ d.1.endLine)) = l.find? fun d => decide (later ≤ d.1.endLine) := by
  induction l with
  | nil => rfl
  | cons d l ih =>
    by_cases hd : d.1.endLine < line
    · rw [List.dropWhile_cons_of_pos (by simpa using hd), ih, List.find?_cons_of_neg]
      simp only [decide_eq_true_eq]
      omega
    · rw [List.dropWhile_cons_of_neg (by simpa using hd)]

theorem Reached.advance {ds : List Declaration} {s : Sweep} {before line : Nat}
    (h : Reached ds before s) (hle : before ≤ line) : Reached ds line (s.advance line) := by
  obtain ⟨started, hsplit, hstart, hfind⟩ := h
  refine ⟨started ++ s.waiting.takeWhile fun d => decide (d.1.startLine ≤ line), ?_, ?_, ?_⟩
  · rw [List.append_assoc, hsplit]
    exact congrArg _ List.takeWhile_append_dropWhile.symm
  · intro d hd
    rcases List.mem_append.mp hd with hd | hd
    · exact (hstart d hd).trans hle
    · simpa using List.mem_takeWhile_imp hd
  · intro later hlater
    rw [List.reverse_append, List.find?_append, ← hfind later (hle.trans hlater),
      ← List.find?_append]
    exact find?_dropWhile_ended hlater _

/-- The candidates still waiting after a line start after it. -/
theorem lt_startLine_of_mem_dropWhile {line : Nat} {l : List Placed}
    (hl : l.Pairwise fun a b => b.Nearer a) {d : Placed}
    (hd : d ∈ l.dropWhile fun d => decide (d.1.startLine ≤ line)) : line < d.1.startLine := by
  induction l with
  | nil => simp at hd
  | cons a l ih =>
    rw [List.pairwise_cons] at hl
    by_cases ha : a.1.startLine ≤ line
    · rw [List.dropWhile_cons_of_pos (by simpa using ha)] at hd
      exact ih hl.2 hd
    · rw [List.dropWhile_cons_of_neg (by simpa using ha)] at hd
      rcases List.mem_cons.mp hd with rfl | hd
      · omega
      · have := hl.1 d hd
        unfold Placed.Nearer at this
        omega

/-- On top of the stack is the nearest declaration around the line. -/
theorem Reached.head?_advance {ds : List Declaration} {s : Sweep} {before line : Nat}
    (h : Reached ds before s) (hle : before ≤ line) :
    (s.advance line).opened.head? = nearest? ds line := by
  obtain ⟨started, hsplit, hstart, hfind⟩ := h.advance hle
  have htop : (s.advance line).opened.head? =
      (s.advance line).opened.find? fun d => decide (line ≤ d.1.endLine) := by
    rw [Sweep.advance, find?_dropWhile_ended (Nat.le_refl line),
      ← List.find?_not_eq_head?_dropWhile]
    exact List.find?_congr fun d _ => by simp [← decide_not]
  -- nothing that waits contains the line, so only what has started needs to be searched
  have hwaiting : ∀ d ∈ (s.advance line).waiting, line < d.1.startLine := by
    intro d hd
    obtain ⟨_, hall, -⟩ := h
    have hsorted := pairwise_candidates ds
    rw [hall] at hsorted
    exact lt_startLine_of_mem_dropWhile (List.pairwise_append.mp hsorted).2.1 hd
  have hnone : ((s.advance line).waiting.reverse.find? fun d => d.1.containsLine line) = none := by
    rw [List.find?_eq_none]
    intro d hd hline
    have := hwaiting d (List.mem_reverse.mp hd)
    simp only [Declaration.containsLine, Bool.and_eq_true, decide_eq_true_eq] at hline
    omega
  have hsome : (started.reverse.find? fun d => decide (line ≤ d.1.endLine)) =
      started.reverse.find? fun d => d.1.containsLine line := by
    refine List.find?_congr fun d hd => ?_
    simp [Declaration.containsLine, hstart d (List.mem_reverse.mp hd)]
  rw [htop, hfind line (Nat.le_refl line), hsome, ← find?_candidates, hsplit, List.reverse_append,
    List.find?_append, hnone, Option.none_or]

/-- The pass gives each line, of lines in ascending order, the place of the nearest
declaration. -/
theorem Reached.owners {ds : List Declaration} {s : Sweep} {before : Nat}
    (h : Reached ds before s) {lines : List (Nat × Nat)} (hfrom : ∀ l ∈ lines, before ≤ l.1)
    (hsorted : lines.Pairwise fun a b => a.1 ≤ b.1) :
    s.owners lines = lines.map fun l => ((nearest? ds l.1).map (·.2), l.2) := by
  induction lines generalizing s before with
  | nil => rfl
  | cons l lines ih =>
    obtain ⟨line, i⟩ := l
    rw [List.pairwise_cons] at hsorted
    have hle : before ≤ line := hfrom (line, i) (by simp)
    simp only [Sweep.owners, List.map_cons, owner?]
    rw [h.head?_advance hle, ih (h.advance hle) hsorted.1 hsorted.2]

end Sweep

/-- Every line gets the place of the nearest declaration around it, whichever other
lines there are and in whatever order. -/
theorem lineOwners_eq_map (ds : List Declaration) (lines : List Nat) :
    lineOwners ds lines = lines.map fun line => (nearest? ds line).map (·.2) := by
  have howners := (Sweep.reached_start ds).owners (fun _ _ => Nat.zero_le _)
    (pairwise_mergeSort_key (·.1) lines.zipIdx)
  have hperm : (Sweep.owners ⟨candidates ds, []⟩
      (lines.zipIdx.mergeSort fun a b => decide (a.1 ≤ b.1))).Perm
      (lines.map fun line => (nearest? ds line).map (·.2)).zipIdx := by
    rw [howners, List.zipIdx_map]
    exact (List.mergeSort_perm _ _).map _
  simp only [lineOwners]
  rw [mergeSort_place_eq_zipIdx hperm, List.zipIdx_map_fst]

end CodeAtlas.Graph
