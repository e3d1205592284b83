import CodeAtlas.Proofs.Attribution
import CodeAtlas.Proofs.Spans
import Mathlib.Data.List.MinMax
import Mathlib.Data.List.Pairwise
import Mathlib.Data.Prod.Lex

/-!
# Nearest and tightest owners

The owner of a line is a matter of the declarations and of that line alone
(`lineOwners_by_line`) : of the functions and methods that contain it the one that starts
last, then ends first, then is declared first (`Owns`). This holds of any spans.

What one would look for instead is the tightest declaration around the line, the one with
the fewest lines (`tightest?`). The pass over the lines never compares lengths, and where
spans overlap without nesting the last to start may well be the longer one. If functions
and methods nest, both orders are the same among those that contain a line
(`Placed.nearer_iff_key_le`), so the owner is the tightest one and lies inside all others
(`lineOwners_tightest`).
-/

namespace CodeAtlas.Facts.Span

/-- Spans are apart if one of them has ended where the other starts, or has no line. -/
theorem apart_iff {a b : Span} : a.Apart b ↔ min a.2 b.2 < max a.1 b.1 := by
  constructor
  · intro h
    have := h (max a.1 b.1) (Nat.le_max_left _ _)
    omega
  · intro h line hfirst hlast hfirst'
    omega

/-- One of two spans is inside the other, or they have no line in common. -/
def Nested (a b : Span) : Prop := a.Inside b ∨ b.Inside a ∨ a.Apart b

instance (a b : Span) : Decidable (a.Inside b) :=
  inferInstanceAs (Decidable (_ ∧ _))

instance (a b : Span) : Decidable (a.Apart b) :=
  decidable_of_iff _ apart_iff.symm

instance (a b : Span) : Decidable (a.Nested b) :=
  inferInstanceAs (Decidable (_ ∨ _))

theorem Nested.refl (a : Span) : a.Nested a :=
  Or.inl ⟨Nat.le_refl _, Nat.le_refl _⟩

theorem Nested.symm {a b : Span} : a.Nested b → b.Nested a := by
  rintro (h | h | h)
  · exact Or.inr (Or.inl h)
  · exact Or.inl h
  · exact Or.inr (Or.inr h.symm)

/-- Of nested spans with a line in common one is inside the other. -/
theorem Nested.inside_or {a b : Span} (h : a.Nested b) {line : Nat}
    (ha : a.1 ≤ line ∧ line ≤ a.2) (hb : b.1 ≤ line ∧ line ≤ b.2) : a.Inside b ∨ b.Inside a := by
  rcases h with h | h | h
  · exact Or.inl h
  · exact Or.inr h
  · exact absurd hb.2 (Nat.not_le.mpr (h line ha.1 ha.2 hb.1))

end CodeAtlas.Facts.Span

namespace CodeAtlas.Graph

open CodeAtlas.Facts

/-! ## The nearest declaration around a line -/

/-- A declaration owns a line : it is a function or method that contains the line, and as
near as every other one. -/
structure Owns (ds : List Declaration) (line i : Nat) (d : Declaration) : Prop where
  declared : ds[i]? = some d
  callable : d.kind.isCallable
  contains : d.containsLine line
  nearest : ∀ (j : Nat) (e : Declaration), ds[j]? = some e → e.kind.isCallable →
    e.containsLine line → Placed.Nearer (d, i) (e, j)

theorem owns_iff_nearest? {ds : List Declaration} {line i : Nat} {d : Declaration} :
    Owns ds line i d ↔ nearest? ds line = some (d, i) := by
  rw [nearest?_eq_some_iff, mem_around]
  constructor
  · intro h
    refine ⟨⟨h.declared, h.callable, h.contains⟩, fun b hb => ?_⟩
    obtain ⟨hdeclared, hcallable, hline⟩ := mem_around.mp hb
    exact h.nearest b.2 b.1 hdeclared hcallable hline
  · rintro ⟨⟨hdeclared, hcallable, hline⟩, hnear⟩
    exact ⟨hdeclared, hcallable, hline, fun j e he hkind hcontains =>
      hnear (e, j) (mem_around.mpr ⟨he, hkind, hcontains⟩)⟩

theorem around_eq_nil_iff {ds : List Declaration} {line : Nat} :
    around ds line = [] ↔ ∀ d ∈ ds, d.kind.isCallable → ¬d.containsLine line := by
  rw [List.eq_nil_iff_forall_not_mem]
  constructor
  · intro h d hd hcallable hline
    obtain ⟨i, hi⟩ := List.mem_iff_getElem?.mp hd
    exact h (d, i) (mem_around.mpr ⟨hi, hcallable, hline⟩)
  · intro h a ha
    obtain ⟨hdeclared, hcallable, hline⟩ := mem_around.mp ha
    exact h a.1 (List.mem_of_getElem? hdeclared) hcallable hline

/-- Each line gets its owner by itself, whichever lines come before and after it. It gets
none exactly if no function or method contains it. -/
theorem lineOwners_by_line (ds : List Declaration) :
    ∃ owner : Nat → Option Nat,
      (∀ lines, lineOwners ds lines = lines.map owner) ∧
      (∀ line i, owner line = some i ↔ ∃ d, Owns ds line i d) ∧
      ∀ line, owner line = none ↔ ∀ d ∈ ds, d.kind.isCallable → ¬d.containsLine line := by
  refine ⟨fun line => (nearest? ds line).map (·.2), lineOwners_eq_map ds, fun line i => ?_,
    fun line => ?_⟩
  · rw [Option.map_eq_some_iff]
    constructor
    · rintro ⟨⟨d, j⟩, hd, rfl⟩
      exact ⟨d, owns_iff_nearest?.mpr hd⟩
    · rintro ⟨d, hd⟩
      exact ⟨(d, i), owns_iff_nearest?.mp hd, rfl⟩
  · rw [Option.map_eq_none_iff, nearest?_eq_none_iff, around_eq_nil_iff]

/-! ## The tightest declaration around a line -/

/-- What is compared to find the tightest declaration : the length of its span, then its
place. -/
def Placed.key (d : Placed) : Nat ×ₗ Nat := toLex (d.1.span, d.2)

/-- The place of the tightest function or method that contains a line, by looking at all
of them; of those with equally many lines it is the first. -/
def tightest? (ds : List Declaration) (line : Nat) : Option Nat :=
  ((around ds line).argmin Placed.key).map (·.2)

/-- The functions and methods of a list nest. Nothing else is asked of their spans : one
that ends before it starts contains no line. -/
def CallablesNest (ds : List Declaration) : Prop :=
  (ds.filter fun d => d.kind.isCallable).Pairwise fun d e => d.lines.Nested e.lines

instance (ds : List Declaration) : Decidable (CallablesNest ds) :=
  inferInstanceAs (Decidable (List.Pairwise _ _))

theorem containsLine_iff {d : Declaration} {line : Nat} :
    d.containsLine line ↔ d.lines.1 ≤ line ∧ line ≤ d.lines.2 := by
  simp [Declaration.containsLine, Declaration.lines]

theorem CallablesNest.inside_or {ds : List Declaration} (h : CallablesNest ds) {line : Nat}
    {a b : Placed} (ha : a ∈ around ds line) (hb : b ∈ around ds line) :
    a.1.lines.Inside b.1.lines ∨ b.1.lines.Inside a.1.lines := by
  obtain ⟨hdeclared, hcallable, hline⟩ := mem_around.mp ha
  obtain ⟨hdeclared', hcallable', hline'⟩ := mem_around.mp hb
  have hsymm : Std.Symm fun d e : Declaration => d.lines.Nested e.lines :=
    ⟨fun _ _ => Span.Nested.symm⟩
  have hnested : a.1.lines.Nested b.1.lines :=
    h.forall_of_forall (fun d _ => Span.Nested.refl d.lines)
      (List.mem_filter.mpr ⟨List.mem_of_getElem? hdeclared, hcallable⟩)
      (List.mem_filter.mpr ⟨List.mem_of_getElem? hdeclared', hcallable'⟩)
  exact hnested.inside_or (containsLine_iff.mp hline) (containsLine_iff.mp hline')

/-- Of two declarations that contain a line, one inside the other, the nearer is the
tighter : inside it starts no earlier and ends no later, so equal lengths are equal
spans. -/
theorem Placed.nearer_iff_key_le {a b : Placed} {line : Nat} (ha : a.1.containsLine line)
    (hb : b.1.containsLine line)
    (h : a.1.lines.Inside b.1.lines ∨ b.1.lines.Inside a.1.lines) :
    a.Nearer b ↔ a.key ≤ b.key := by
  rw [containsLine_iff] at ha hb
  simp only [Placed.Nearer, Placed.key, Prod.Lex.toLex_le_toLex, Declaration.span, Span.Inside,
    Declaration.lines] at *
  omega

/-- Of two declarations, one inside the other, the nearer is inside; of two with the same span
it is the first. -/
theorem Placed.Nearer.inside {a b : Placed} (hnear : a.Nearer b)
    (h : a.1.lines.Inside b.1.lines ∨ b.1.lines.Inside a.1.lines) :
    a.1.lines.Inside b.1.lines ∧ (a.1.lines = b.1.lines → a.2 ≤ b.2) := by
  simp only [Placed.Nearer, Span.Inside, Declaration.lines, Prod.mk.injEq] at *
  omega

theorem CallablesNest.nearest?_eq_argmin {ds : List Declaration} (h : CallablesNest ds)
    (line : Nat) : nearest? ds line = (around ds line).argmin Placed.key := by
  cases hm : (around ds line).argmin Placed.key with
  | none => exact nearest?_eq_none_iff.mpr (List.argmin_eq_none.mp hm)
  | some m =>
    have hmem : m ∈ around ds line := List.argmin_mem hm
    refine nearest?_eq_some_iff.mpr ⟨hmem, fun b hb => ?_⟩
    rw [Placed.nearer_iff_key_le (mem_around.mp hmem).2.2 (mem_around.mp hb).2.2
      (h.inside_or hmem hb)]
    exact List.le_of_mem_argmin hb hm

/-- Where functions and methods nest, every line belongs to the tightest one around it. All
others around the line contain it, and of those with the same span it is the first. -/
theorem lineOwners_tightest {ds : List Declaration} (h : CallablesNest ds) (lines : List Nat) :
    lineOwners ds lines = lines.map (tightest? ds) ∧
      ∀ line i, tightest? ds line = some i → ∃ d, (d, i) ∈ around ds line ∧
        ∀ other ∈ around ds line,
          d.lines.Inside other.1.lines ∧ (d.lines = other.1.lines → i ≤ other.2) := by
  have hnearest : ∀ line, tightest? ds line = (nearest? ds line).map (·.2) := by
    intro line
    rw [h.nearest?_eq_argmin line, tightest?]
  refine ⟨?_, fun line i hi => ?_⟩
  · rw [lineOwners_eq_map, funext hnearest]
  · rw [hnearest, Option.map_eq_some_iff] at hi
    obtain ⟨⟨d, i⟩, hd, rfl⟩ := hi
    obtain ⟨hmem, hnear⟩ := nearest?_eq_some_iff.mp hd
    exact ⟨d, hmem, fun other hother => (hnear other hother).inside (h.inside_or hmem hother)⟩

/-- A method in a class, and in the method three functions that start on one line, two of
them with the same span. -/
theorem lineOwners_tightest_alike :
    let decl (kind : DeclarationKind) (first last : Nat) : Declaration :=
      ⟨"f", kind, none, [], "m", "m.py", first, last⟩
    let ds := [decl .classDef 1 20, decl .method 2 10, decl .function 3 5, decl .function 3 5,
      decl .function 3 4, decl .function 12 12]
    CallablesNest ds ∧
      lineOwners ds [5, 12, 4, 2, 11, 5, 1] =
        [some 2, some 5, some 4, some 1, none, some 2, none] := by
  intro decl ds
  have h : CallablesNest ds := by decide
  refine ⟨h, ?_⟩
  rw [(lineOwners_tightest h _).1]
  decide

/-- Of two functions that overlap without nesting, the one that starts last is the nearer and
the other the tighter. -/
example :
    let decl (first last : Nat) : Declaration :=
      ⟨"f", .function, none, [], "m", "m.py", first, last⟩
    ¬CallablesNest [decl 1 10, decl 5 30] ∧
      (nearest? [decl 1 10, decl 5 30] 7).map (·.2) = some 1 ∧
      tightest? [decl 1 10, decl 5 30] 7 = some 0 := by
  decide

end CodeAtlas.Graph
