import CodeAtlas.Proofs.Lists
import CodeAtlas.Proofs.SyntaxTree
import CodeAtlas.Source.Extract
import Mathlib.Data.List.Nodup
import Mathlib.Data.List.Perm.Basic

/-!
# The lines of classes and functions

The lines of a definition are the rows on which some of it stands (`occupies_iff`), even if
it ends before the first column of a row. So they nest as the ranges of the tree do, and
definitions that share no row share no line. From this the spans in the facts of a module
fit together (`SpansFit`) : those of methods are inside the span of their class, and no two
functions or methods have a line in common. In the order of declarations a class then comes
before its methods, and a line is in one function or method at most
(`spans_of_definitions`).
-/

namespace CodeAtlas.Facts

/-! ## Spans that fit together -/

/-- The first and the last line of something. -/
abbrev Span := Nat × Nat

/-- Two spans have no line in common. -/
def Span.Apart (a b : Span) : Prop := ∀ line, a.1 ≤ line → line ≤ a.2 → b.1 ≤ line → b.2 < line

/-- A span has all its lines in another. -/
def Span.Inside (a b : Span) : Prop := b.1 ≤ a.1 ∧ a.2 ≤ b.2

theorem Span.Apart.symm {a b : Span} (h : a.Apart b) : b.Apart a := by
  intro line hfirst hlast hfirst'
  by_contra hlast'
  exact absurd (h line hfirst' (Nat.not_lt.mp hlast') hfirst) (Nat.not_lt.mpr hlast)

/-- Spans inside of spans that are apart are so too. -/
theorem Span.Apart.mono {a b c d : Span} (h : a.Apart b) (hc : Span.Inside c a)
    (hd : Span.Inside d b) : Span.Apart c d := by
  unfold Span.Inside at hc hd
  intro line hfirst hlast hfirst'
  have := h line (by omega) (by omega) (by omega)
  omega

theorem Span.Apart.ne {a b : Span} (h : a.Apart b) (hb : b.1 ≤ b.2) : a ≠ b := by
  rintro rfl
  exact absurd (h a.1 (Nat.le_refl _) hb (Nat.le_refl _)) (Nat.not_lt.mpr hb)

/-- The first and the last line of a function. -/
def FunctionFacts.span (f : FunctionFacts) : Span := (f.startLine, f.endLine)

/-- The first and the last line of a class. -/
def ClassFacts.span (c : ClassFacts) : Span := (c.startLine, c.endLine)

/-- The first and the last line of a declaration. -/
def Declaration.lines (d : Declaration) : Span := (d.startLine, d.endLine)

namespace ModuleFacts

/-- All methods and functions of a module. -/
def callables (m : ModuleFacts) : List FunctionFacts :=
  m.classes.flatMap (·.methods) ++ m.functions

/-- The spans of a module's classes and functions fit together. -/
structure SpansFit (m : ModuleFacts) : Prop where
  classes : ∀ c ∈ m.classes, c.startLine ≤ c.endLine
  callables : ∀ f ∈ m.callables, f.startLine ≤ f.endLine
  methods : ∀ c ∈ m.classes, ∀ f ∈ c.methods, f.span.Inside c.span
  classesApart : m.classes.Pairwise fun c d => c.span.Apart d.span
  callablesApart : m.callables.Pairwise fun f g => f.span.Apart g.span

/-! ## Declarations -/

variable {m : ModuleFacts}

/-- The declarations of functions, under names that may be qualified. -/
def ofFunctions (m : ModuleFacts) (kind : DeclarationKind) (name : FunctionFacts → String)
    (fs : List FunctionFacts) : List Declaration := fs.map fun f => m.ofFunction kind (name f) f

section

variable (m) {kind : DeclarationKind} (hkind : kind.isCallable = true)
  (name : FunctionFacts → String) (fs : List FunctionFacts)

include hkind

theorem filter_callable_ofFunctions :
    (m.ofFunctions kind name fs).filter (fun d => d.kind.isCallable) = m.ofFunctions kind name fs := by
  simp [ofFunctions, ofFunction, hkind]

theorem filter_not_callable_ofFunctions :
    (m.ofFunctions kind name fs).filter (fun d => !d.kind.isCallable) = [] := by
  simp [ofFunctions, ofFunction, hkind]

end

theorem map_lines_ofFunctions (m : ModuleFacts) (kind : DeclarationKind)
    (name : FunctionFacts → String) (fs : List FunctionFacts) :
    (m.ofFunctions kind name fs).map (·.lines) = fs.map (·.span) := by
  simp [ofFunctions, ofFunction, Declaration.lines, FunctionFacts.span]

/-- The declaration of a class itself. -/
def classDeclaration (m : ModuleFacts) (c : ClassFacts) : Declaration :=
  { name := c.name, kind := .classDef, signature := none, decorators := c.decorators,
    unit := m.module, path := m.path, startLine := c.startLine, endLine := c.endLine }

/-- The declaration of a method, with the name of its class. -/
def methodDeclaration (m : ModuleFacts) (c : ClassFacts) (f : FunctionFacts) : Declaration :=
  m.ofFunction .method (c.name ++ "." ++ f.name) f

theorem ofClass_eq (m : ModuleFacts) (c : ClassFacts) : m.ofClass c =
    m.classDeclaration c :: m.ofFunctions .method (fun f => c.name ++ "." ++ f.name) c.methods :=
  rfl

theorem unsortedDeclarations_eq (m : ModuleFacts) : m.unsortedDeclarations =
    m.classes.flatMap m.ofClass ++ m.ofFunctions .function (·.name) m.functions :=
  rfl

/-- The declarations that can call have the lines of the methods and functions. -/
theorem map_lines_callables (m : ModuleFacts) :
    (m.unsortedDeclarations.filter fun d => d.kind.isCallable).map (·.lines) =
      m.callables.map (·.span) := by
  have hmethods (c : ClassFacts) :
      ((m.ofClass c).filter fun d => d.kind.isCallable).map (·.lines) = c.methods.map (·.span) := by
    rw [ofClass_eq, List.filter_cons_of_neg Bool.false_ne_true, filter_callable_ofFunctions m rfl,
      map_lines_ofFunctions]
  rw [unsortedDeclarations_eq, List.filter_append, filter_callable_ofFunctions m rfl,
    List.map_append, map_lines_ofFunctions, List.filter_flatMap, List.map_flatMap, callables,
    List.map_append, List.map_flatMap]
  simp only [hmethods]

/-- The other declarations have the lines of the classes. -/
theorem map_lines_classes (m : ModuleFacts) :
    (m.unsortedDeclarations.filter fun d => !d.kind.isCallable).map (·.lines) =
      m.classes.map (·.span) := by
  have hclass (c : ClassFacts) :
      ((m.ofClass c).filter fun d => !d.kind.isCallable).map (·.lines) = [c.span] := by
    rw [ofClass_eq, List.filter_cons_of_pos rfl, filter_not_callable_ofFunctions m rfl]
    rfl
  rw [unsortedDeclarations_eq, List.filter_append, filter_not_callable_ofFunctions m rfl,
    List.append_nil, List.filter_flatMap, List.map_flatMap, List.map_eq_flatMap]
  simp only [hclass]

/-- No declaration is listed twice, a line is in one function or method at most, and a class
is listed before its methods. -/
structure DeclaredInOrder (m : ModuleFacts) : Prop where
  nodup : m.declarations.Nodup
  oneCallable : ∀ line,
    (m.declarations.filter fun d => d.kind.isCallable && d.containsLine line).length ≤ 1
  classFirst : ∀ c ∈ m.classes, ∀ f ∈ c.methods,
    [m.classDeclaration c, m.methodDeclaration c f].Sublist m.declarations

theorem declarations_perm (m : ModuleFacts) : m.declarations.Perm m.unsortedDeclarations :=
  List.mergeSort_perm ..

namespace SpansFit

/-- No two declarations that can call have a line in common. -/
theorem pairwise_callables (h : m.SpansFit) :
    (m.declarations.filter fun d => d.kind.isCallable).Pairwise fun d e =>
      d.lines.Apart e.lines := by
  have hperm := m.declarations_perm.filter fun d => d.kind.isCallable
  refine (hperm.pairwise_iff fun h => h.symm).mpr ?_
  have hlines : (m.callables.map (·.span)).Pairwise Span.Apart :=
    List.pairwise_map.mpr h.callablesApart
  rw [← map_lines_callables] at hlines
  exact List.pairwise_map.mp hlines

/-- A line is in one function or method at most. -/
theorem length_containing_le (h : m.SpansFit) (line : Nat) :
    (m.declarations.filter fun d => d.kind.isCallable && d.containsLine line).length ≤ 1 := by
  have hnone : (m.declarations.filter fun d => d.kind.isCallable && d.containsLine line).Pairwise
      fun _ _ => False := by
    have hswap : (fun d : Declaration => d.kind.isCallable && d.containsLine line) =
        fun d => d.containsLine line && d.kind.isCallable := by
      funext d
      exact Bool.and_comm ..
    rw [hswap, ← List.filter_filter]
    refine (h.pairwise_callables.filter _).imp_of_mem fun {d e} hd he hapart => ?_
    have hd := (List.mem_filter.mp hd).2
    have he := (List.mem_filter.mp he).2
    simp only [Declaration.containsLine, Bool.and_eq_true, decide_eq_true_eq] at hd he
    exact absurd (hapart line hd.1 hd.2 he.1) (Nat.not_lt.mpr he.2)
  exact length_le_one_of_pairwise hnone

/-- No declaration is listed twice. -/
theorem nodup_declarations (h : m.SpansFit) : m.declarations.Nodup := by
  have hcallables : (m.unsortedDeclarations.filter fun d => d.kind.isCallable).Nodup := by
    refine List.Nodup.of_map (·.lines) ?_
    rw [map_lines_callables]
    refine List.pairwise_map.mpr (h.callablesApart.imp_of_mem fun _ hg hapart => ?_)
    exact hapart.ne (h.callables _ hg)
  have hclasses : (m.unsortedDeclarations.filter fun d => !d.kind.isCallable).Nodup := by
    refine List.Nodup.of_map (·.lines) ?_
    rw [map_lines_classes]
    refine List.pairwise_map.mpr (h.classesApart.imp_of_mem fun _ hd hapart => ?_)
    exact hapart.ne (h.classes _ hd)
  rw [m.declarations_perm.nodup_iff,
    ← (List.filter_append_perm (fun d => d.kind.isCallable) m.unsortedDeclarations).nodup_iff,
    List.nodup_append]
  refine ⟨hcallables, hclasses, fun d hd e he heq => ?_⟩
  have hd := (List.mem_filter.mp hd).2
  have he := (List.mem_filter.mp he).2
  rw [heq] at hd
  simp [hd] at he

/-- The sort keeps a class before its methods, as they start on its first line or after. -/
theorem class_before_method (h : m.SpansFit) {c : ClassFacts} (hc : c ∈ m.classes)
    {f : FunctionFacts} (hf : f ∈ c.methods) :
    [m.classDeclaration c, m.methodDeclaration c f].Sublist m.declarations := by
  have hpair : [m.classDeclaration c, m.methodDeclaration c f].Sublist m.unsortedDeclarations := by
    have hclass : (m.ofClass c).Sublist (m.classes.flatMap m.ofClass) :=
      List.flatMap_def ▸ List.sublist_flatten_of_mem (List.mem_map_of_mem hc)
    rw [unsortedDeclarations_eq]
    refine List.Sublist.trans ?_ (hclass.trans (List.sublist_append_left _ _))
    exact List.Sublist.cons_cons _ (List.singleton_sublist.mpr (List.mem_map_of_mem hf))
  have hle : (m.classDeclaration c).startLine ≤ (m.methodDeclaration c f).startLine :=
    (h.methods c hc f hf).1
  refine List.pair_sublist_mergeSort ?_ ?_ (decide_eq_true hle) hpair
  · intro a b c hab hbc
    simp only [decide_eq_true_eq] at *
    exact Nat.le_trans hab hbc
  · intro a b
    simp only [Bool.or_eq_true, decide_eq_true_eq]
    exact Nat.le_total ..

theorem declaredInOrder (h : m.SpansFit) : m.DeclaredInOrder :=
  ⟨h.nodup_declarations, h.length_containing_le, fun _ hc _ hf => h.class_before_method hc hf⟩

end SpansFit

end ModuleFacts

end CodeAtlas.Facts

namespace CodeAtlas.Source

open CodeAtlas.Facts CodeAtlas.Syntax CodeAtlas.Text

/-! ## Rows and lines -/

variable {n d e : Node}

/-- Whether some of a node stands on a row. -/
def Occupies (n : Node) (row : Nat) : Prop :=
  ∃ p : Position, p.row = row ∧ n.start ≤ p ∧ p < n.stop

/-- The first and the last line of a node. -/
def lines (n : Node) : Span := (startLine n, endLine n)

/-- A node that is not empty has the lines of the rows on which some of it stands. -/
theorem occupies_iff (h : n.start < n.stop) {row : Nat} :
    Occupies n row ↔ startLine n ≤ row + 1 ∧ row + 1 ≤ endLine n := by
  simp only [Occupies, Position.le_def, Position.lt_def, startLine, endLine] at *
  constructor
  · rintro ⟨p, rfl, hstart, hstop⟩
    split <;> omega
  · rintro ⟨hfirst, hlast⟩
    rcases Nat.eq_or_lt_of_le (Nat.le_of_succ_le_succ hfirst) with hrow | hrow
    · exact ⟨n.start, hrow, .inr ⟨rfl, Nat.le_refl _⟩, h⟩
    · refine ⟨⟨0, row, 0⟩, rfl, .inl hrow, ?_⟩
      split at hlast <;> simp only <;> omega

/-- Nodes that share no row share no line. -/
theorem lines_apart (hd : d.start < d.stop) (he : e.start < e.stop)
    (h : ∀ row, ¬(Occupies d row ∧ Occupies e row)) : (lines d).Apart (lines e) := by
  intro line hfirst hlast hfirst'
  by_contra hlast'
  refine h (line - 1) ?_
  have hline : line - 1 + 1 = line := Nat.sub_add_cancel (Nat.le_trans (Nat.succ_pos _) hfirst)
  rw [occupies_iff hd, occupies_iff he, hline]
  exact ⟨⟨hfirst, hlast⟩, hfirst', Nat.not_lt.mp hlast'⟩

/-- The lines of a node that is not empty are inside those of a node around it. -/
theorem lines_inside (hd : d.start < d.stop) (hstart : n.start ≤ d.start)
    (hstop : d.stop ≤ n.stop) : (lines d).Inside (lines n) := by
  simp only [Span.Inside, lines, Position.le_def, Position.lt_def, startLine, endLine] at *
  constructor
  · omega
  · split <;> split <;> omega

theorem startLine_le_endLine (h : n.start < n.stop) : startLine n ≤ endLine n := by
  simp only [Position.lt_def, startLine, endLine] at *
  split <;> omega

/-! ## Definitions -/

/-- Whether a node defines a class or a function. -/
def isDefinition (n : Node) : Bool := n.kind == "class_definition" || n.kind == "function_definition"

/-- The class or function that a statement defines, with decorators or without. -/
def defined? (n : Node) : Option Node := ((definition? n).map (·.2)).filter isDefinition

/-- In every node of a tree the children are inside of their parent, no definition is
empty, and the definitions in two statements of one node have no row in common. -/
structure WellSpaced (root : Node) : Prop where
  encloses : ∀ n ∈ root.preorder, n.Encloses
  filled : ∀ n ∈ root.preorder, isDefinition n → n.start < n.stop
  apart : ∀ n ∈ root.preorder, n.namedChildren.Pairwise fun a b =>
    ∀ d ∈ defined? a, ∀ e ∈ defined? b, ∀ row, ¬(Occupies d row ∧ Occupies e row)

theorem mem_children_of_field? {name : String} (h : n.field? name = some d) : d ∈ n.children :=
  List.mem_of_mem_filter (List.mem_of_mem_head? h)

/-- What a statement defines is the statement itself or a child of it. -/
theorem of_defined? (h : defined? n = some d) :
    isDefinition d = true ∧ (d = n ∨ d ∈ n.children) := by
  obtain ⟨hsome, hdefinition⟩ := Option.filter_eq_some_iff.mp h
  refine ⟨hdefinition, ?_⟩
  obtain ⟨found, hfound, rfl⟩ := Option.map_eq_some_iff.mp hsome
  unfold definition? at hfound
  split at hfound
  · rw [← Option.some.inj hfound]
    exact .inl rfl
  · split at hfound
    · obtain ⟨inner, hinner, rfl⟩ := Option.map_eq_some_iff.mp hfound
      exact .inr (mem_children_of_field? hinner)
    · cases hfound

theorem functionOf?_eq_some {f : FunctionFacts} (h : functionOf? n = some f) :
    ∃ d, defined? n = some d ∧ d.kind = "function_definition" ∧ f.span = lines d := by
  obtain ⟨⟨decorators, d⟩, hfound, hf⟩ := Option.bind_eq_some_iff.mp h
  simp only at hf
  split at hf
  · rename_i hkind
    obtain ⟨name, -, rfl⟩ := Option.map_eq_some_iff.mp hf
    exact ⟨d, by simp [defined?, hfound, isDefinition, hkind], hkind, rfl⟩
  · cases hf

/-- The methods of a class are defined by children of a child of its definition. -/
theorem classOf?_eq_some {c : ClassFacts} (h : classOf? n = some c) :
    ∃ d, defined? n = some d ∧ d.kind = "class_definition" ∧ c.span = lines d ∧
      (c.methods = [] ∨
        ∃ body ∈ d.children, c.methods = body.namedChildren.filterMap functionOf?) := by
  obtain ⟨⟨decorators, d⟩, hfound, hc⟩ := Option.bind_eq_some_iff.mp h
  simp only at hc
  split at hc
  · rename_i hkind
    obtain ⟨name, -, rfl⟩ := Option.map_eq_some_iff.mp hc
    refine ⟨d, by simp [defined?, hfound, isDefinition, hkind], hkind, rfl, ?_⟩
    cases hbody : d.field? "body" with
    | none => exact .inl rfl
    | some body => exact .inr ⟨body, mem_children_of_field? hbody, rfl⟩
  · cases hc

/-! ## The facts of a module -/

/-- The methods and functions that come from one statement. -/
def callablesOf (n : Node) : List FunctionFacts :=
  (classOf? n).toList.flatMap (·.methods) ++ (functionOf? n).toList

theorem callables_perm (module path : String) (root : Node) :
    (moduleFacts module path root).callables.Perm (root.namedChildren.flatMap callablesOf) := by
  have hmethods : (root.namedChildren.filterMap classOf?).flatMap (·.methods) =
      root.namedChildren.flatMap fun n => (classOf? n).toList.flatMap (·.methods) := by
    rw [List.filterMap_eq_flatMap_toList, List.flatMap_assoc]
  show ((root.namedChildren.filterMap classOf?).flatMap (·.methods) ++
    root.namedChildren.filterMap functionOf?).Perm _
  rw [hmethods, List.filterMap_eq_flatMap_toList]
  exact List.flatMap_append_perm ..

namespace WellSpaced

variable {root : Node} {f : FunctionFacts} {c : ClassFacts}

theorem namedChild_mem (hn : n ∈ root.preorder) (hd : d ∈ n.namedChildren) :
    d ∈ root.preorder :=
  Node.child_mem_preorder hn (List.mem_of_mem_filter hd)

section

variable (h : WellSpaced root)

include h

/-- A definition is not empty, and is inside of its statement. -/
theorem of_defined? (hn : n ∈ root.preorder) (hd : defined? n = some d) :
    d ∈ root.preorder ∧ d.start < d.stop ∧ n.start ≤ d.start ∧ d.stop ≤ n.stop := by
  obtain ⟨hdefinition, rfl | hchild⟩ := Source.of_defined? hd
  · exact ⟨hn, h.filled d hn hdefinition, Position.le_refl _, Position.le_refl _⟩
  · have hmem := Node.child_mem_preorder hn hchild
    exact ⟨hmem, h.filled d hmem hdefinition, h.encloses n hn d hchild⟩

theorem function_lines (hn : n ∈ root.preorder) (hf : functionOf? n = some f) :
    f.startLine ≤ f.endLine := by
  obtain ⟨d, hd, -, hspan⟩ := functionOf?_eq_some hf
  have := startLine_le_endLine (h.of_defined? hn hd).2.1
  obtain ⟨hfirst, hlast⟩ := Prod.mk.inj hspan
  omega

/-- A method comes from a statement in the body of its class, and is inside of the class. -/
theorem method_inside (hn : n ∈ root.preorder) (hc : classOf? n = some c)
    (hf : f ∈ c.methods) :
    f.span.Inside c.span ∧ ∃ a ∈ root.preorder, functionOf? a = some f := by
  obtain ⟨d, hd, -, hspan, hnone | ⟨body, hbody, hmethods⟩⟩ := classOf?_eq_some hc
  · rw [hnone] at hf
    exact nomatch hf
  rw [hmethods] at hf
  obtain ⟨a, ha, hfa⟩ := List.mem_filterMap.mp hf
  obtain ⟨e, he, -, hfspan⟩ := functionOf?_eq_some hfa
  have hdmem := (h.of_defined? hn hd).1
  have hbodymem := Node.child_mem_preorder hdmem hbody
  have hamem := namedChild_mem hbodymem ha
  obtain ⟨-, hfilled, hstart, hstop⟩ := h.of_defined? hamem he
  obtain ⟨hstart₁, hstop₁⟩ := h.encloses d hdmem body hbody
  obtain ⟨hstart₂, hstop₂⟩ := h.encloses body hbodymem a (List.mem_of_mem_filter ha)
  refine ⟨?_, a, hamem, hfa⟩
  rw [hspan, hfspan]
  exact lines_inside hfilled (Position.le_trans hstart₁ (Position.le_trans hstart₂ hstart))
    (Position.le_trans hstop (Position.le_trans hstop₂ hstop₁))

/-- All that comes from a statement is on the lines of its definition. -/
theorem callable_inside (hn : n ∈ root.preorder) (hf : f ∈ callablesOf n) :
    ∃ d, defined? n = some d ∧ f.span.Inside (lines d) := by
  rcases List.mem_append.mp hf with hf | hf
  · obtain ⟨c, hc, hf⟩ := List.mem_flatMap.mp hf
    have hc := Option.mem_toList.mp hc
    obtain ⟨d, hd, -, hspan, -⟩ := classOf?_eq_some hc
    exact ⟨d, hd, hspan ▸ (h.method_inside hn hc hf).1⟩
  · obtain ⟨d, hd, -, hspan⟩ := functionOf?_eq_some (Option.mem_toList.mp hf)
    exact ⟨d, hd, hspan ▸ ⟨Nat.le_refl _, Nat.le_refl _⟩⟩

/-- The definitions in two statements of a node have no line in common. -/
theorem pairwise_lines (hn : n ∈ root.preorder) : n.namedChildren.Pairwise fun a b =>
    ∀ d ∈ defined? a, ∀ e ∈ defined? b, (lines d).Apart (lines e) := by
  refine (h.apart n hn).imp_of_mem fun {a b} ha hb hapart d hd e he => ?_
  exact lines_apart (h.of_defined? (namedChild_mem hn ha) hd).2.1
    (h.of_defined? (namedChild_mem hn hb) he).2.1 (hapart d hd e he)

theorem pairwise_functions (hn : n ∈ root.preorder) :
    (n.namedChildren.filterMap functionOf?).Pairwise fun f g => f.span.Apart g.span := by
  refine List.pairwise_filterMap.mpr ((h.pairwise_lines hn).imp ?_)
  intro a b hapart f hf g hg
  obtain ⟨d, hd, -, hfspan⟩ := functionOf?_eq_some hf
  obtain ⟨e, he, -, hgspan⟩ := functionOf?_eq_some hg
  rw [hfspan, hgspan]
  exact hapart d hd e he

/-- What comes from one statement is apart : a function alone, or the methods of a class. -/
theorem pairwise_callablesOf (hn : n ∈ root.preorder) :
    (callablesOf n).Pairwise fun f g => f.span.Apart g.span := by
  unfold callablesOf
  cases hc : classOf? n with
  | none => cases functionOf? n <;> simp
  | some c =>
    obtain ⟨d, hd, hkind, -, hmethods⟩ := classOf?_eq_some hc
    have hfunction : functionOf? n = none := by
      refine Option.eq_none_iff_forall_ne_some.mpr fun f hf => ?_
      obtain ⟨d', hd', hkind', -⟩ := functionOf?_eq_some hf
      obtain rfl := Option.some.inj (hd.symm.trans hd')
      simp [hkind] at hkind'
    rcases hmethods with hnone | ⟨body, hbody, hmethods⟩
    · simp [hfunction, hnone]
    · have hmem := Node.child_mem_preorder (h.of_defined? hn hd).1 hbody
      simpa [hfunction, hmethods] using h.pairwise_functions hmem

theorem spansFit (module path : String) : (moduleFacts module path root).SpansFit := by
  have hroot := Node.self_mem_preorder root
  have hstatement {a : Node} (ha : a ∈ root.namedChildren) : a ∈ root.preorder :=
    namedChild_mem hroot ha
  refine ⟨?_, ?_, ?_, ?_, ?_⟩
  · intro c hc
    obtain ⟨a, ha, hc⟩ := List.mem_filterMap.mp hc
    obtain ⟨d, hd, -, hspan, -⟩ := classOf?_eq_some hc
    have := startLine_le_endLine (h.of_defined? (hstatement ha) hd).2.1
    obtain ⟨hfirst, hlast⟩ := Prod.mk.inj hspan
    omega
  · intro f hf
    rcases List.mem_append.mp hf with hf | hf
    · obtain ⟨c, hc, hf⟩ := List.mem_flatMap.mp hf
      obtain ⟨a, ha, hc⟩ := List.mem_filterMap.mp hc
      obtain ⟨-, b, hb, hfb⟩ := h.method_inside (hstatement ha) hc hf
      exact h.function_lines hb hfb
    · obtain ⟨a, ha, hf⟩ := List.mem_filterMap.mp hf
      exact h.function_lines (hstatement ha) hf
  · intro c hc f hf
    obtain ⟨a, ha, hc⟩ := List.mem_filterMap.mp hc
    exact (h.method_inside (hstatement ha) hc hf).1
  · refine List.pairwise_filterMap.mpr ((h.pairwise_lines hroot).imp ?_)
    intro a b hapart c hc c' hc'
    obtain ⟨d, hd, -, hspan, -⟩ := classOf?_eq_some hc
    obtain ⟨e, he, -, hspan', -⟩ := classOf?_eq_some hc'
    rw [hspan, hspan']
    exact hapart d hd e he
  · refine ((callables_perm module path root).pairwise_iff fun h => h.symm).mpr ?_
    refine List.pairwise_flatMap.mpr ⟨fun a ha => h.pairwise_callablesOf (hstatement ha), ?_⟩
    refine (h.pairwise_lines hroot).imp_of_mem fun {a b} ha hb hapart f hf g hg => ?_
    obtain ⟨d, hd, hfd⟩ := h.callable_inside (hstatement ha) hf
    obtain ⟨e, he, hge⟩ := h.callable_inside (hstatement hb) hg
    exact (hapart d hd e he).mono hfd hge

end

end WellSpaced

/-- The classes, methods and functions of a tree with well-spaced definitions have spans that
fit together, and so are declared in order. -/
theorem spans_of_definitions (module path : String) (root : Node) (h : WellSpaced root) :
    (moduleFacts module path root).SpansFit ∧
      (moduleFacts module path root).DeclaredInOrder := by
  have hfit := h.spansFit module path
  exact ⟨hfit, hfit.declaredInOrder⟩

/-- The definitions of a class `A`, with a method on one row and a decorated method on the
next ones, and of a function `h` on the row before whose first column they end. -/
def classThenFunction : Node :=
  let node (kind : String) (field : Option String) (start stop : Position) : List Node → Node :=
    .mk ⟨kind, true, false, false, field, start, stop, ""⟩
  let name (text : String) (start stop : Position) : Node :=
    .mk ⟨"identifier", true, false, false, some "name", start, stop, text⟩ []
  node "module" none .zero ⟨55, 6, 0⟩
    [ node "class_definition" none .zero ⟨44, 5, 0⟩
        [ name "A" ⟨6, 0, 6⟩ ⟨7, 0, 7⟩,
          node "block" (some "body") ⟨11, 1, 2⟩ ⟨44, 5, 0⟩
            [ node "function_definition" none ⟨11, 1, 2⟩ ⟨21, 1, 12⟩
                [name "f" ⟨15, 1, 6⟩ ⟨16, 1, 7⟩],
              node "decorated_definition" none ⟨24, 2, 2⟩ ⟨44, 5, 0⟩
                [ node "function_definition" (some "definition") ⟨29, 3, 2⟩ ⟨44, 5, 0⟩
                    [name "g" ⟨33, 3, 6⟩ ⟨34, 3, 7⟩] ] ] ],
      node "function_definition" none ⟨44, 5, 0⟩ ⟨54, 5, 10⟩
        [name "h" ⟨48, 5, 4⟩ ⟨49, 5, 5⟩] ]

/-- A definition that ends before the first column of a row leaves that row to the next. -/
theorem spans_of_classThenFunction : WellSpaced classThenFunction ∧
    (moduleFacts "m" "m.py" classThenFunction).callables.map (·.span) = [(2, 2), (4, 5), (6, 6)] ∧
    (moduleFacts "m" "m.py" classThenFunction).SpansFit ∧
    (moduleFacts "m" "m.py" classThenFunction).DeclaredInOrder := by
  have hbelow : ∀ n ∈ classThenFunction.preorder, n.namedChildren.Pairwise fun a b =>
      ∀ d ∈ defined? a, ∀ e ∈ defined? b,
        d.start < d.stop ∧ e.start < e.stop ∧ endLine d < startLine e := by
    decide +kernel
  have hspaced : WellSpaced classThenFunction := by
    refine ⟨by decide +kernel, by decide +kernel, fun n hn => (hbelow n hn).imp ?_⟩
    intro a b h d hd e he row ⟨hdrow, herow⟩
    obtain ⟨hdfilled, hefilled, hlt⟩ := h d hd e he
    have hlast := ((occupies_iff hdfilled).mp hdrow).2
    have hfirst := ((occupies_iff hefilled).mp herow).1
    omega
  exact ⟨hspaced, by decide +kernel, spans_of_definitions "m" "m.py" classThenFunction hspaced⟩

end CodeAtlas.Source
