import CodeAtlas.Proofs.Grammatical
import CodeAtlas.Proofs.Lists
import CodeAtlas.Source.Extract

/-!
# Signatures and the parameters that are declared

Which parameter a node declares (`Declares`) does not depend on the comments, types and defaults
in it. The signature of a function is made of the parameters as they are written
(`renderSignature`) if a name follows the stars of each parameter at once
(`parameter?_of_declares`). What stands between stars and a name is read in place of the name
(`exists_startsExtra_of_declares`), and no parameter is written so, since comments and continued
lines start with characters that no identifier has : `signature_of_parameters`.
-/

namespace CodeAtlas.Source

open CodeAtlas.Facts CodeAtlas.Grammar CodeAtlas.Syntax CodeAtlas.Text

/-! ## Parameters -/

/-- A parameter of a function, or a mark between parameters. -/
inductive Parameter where
  | plain (name : String)
  /-- All further arguments by position. -/
  | arguments (name : String)
  /-- All further arguments by name. -/
  | keywords (name : String)
  /-- What follows is given by name. -/
  | keywordMark
  /-- What precedes is given by position. -/
  | positionalMark
  deriving DecidableEq, Repr

/-- A parameter as a signature shows it. -/
def Parameter.render : Parameter → String
  | .plain name => name
  | .arguments name => "*" ++ name
  | .keywords name => "**" ++ name
  | .keywordMark => "*"
  | .positionalMark => "/"

/-- Which parameter a node declares, whatever comments, types and defaults are in it. -/
inductive Declares : Node → Parameter → Prop where
  | plain {n : Node} (hkind : n.kind = "identifier") : Declares n (.plain n.text)
  | defaulted {n name : Node}
      (hkind : n.kind = "default_parameter" ∨ n.kind = "typed_default_parameter")
      (hfield : n.field? "name" = some name) (hname : name.kind = "identifier") :
      Declares n (.plain name.text)
  | typed {n inner : Node} {p : Parameter} (hkind : n.kind = "typed_parameter")
      (hinner : n.parts.head? = some inner) (h : Declares inner p) : Declares n p
  | arguments {n star name : Node} (hkind : n.kind = "list_splat_pattern")
      (hparts : n.parts = [star, name]) (hname : name.kind = "identifier") :
      Declares n (.arguments name.text)
  | keywords {n star name : Node} (hkind : n.kind = "dictionary_splat_pattern")
      (hparts : n.parts = [star, name]) (hname : name.kind = "identifier") :
      Declares n (.keywords name.text)
  | keywordMark {n : Node} (hkind : n.kind = "keyword_separator") : Declares n .keywordMark
  | positionalMark {n : Node} (hkind : n.kind = "positional_separator") :
      Declares n .positionalMark

/-- The nodes of the parameters of a function definition. -/
def parameterNodes (d : Node) : List Node :=
  ((d.field? "parameters").map fun n => n.parts.filter (·.info.named)).getD []

/-- Whether a parameter is a tuple of names. -/
def IsTuple (n : Node) : Prop :=
  n.kind = "tuple_pattern" ∨
    n.kind = "default_parameter" ∧ ∃ name ∈ n.field? "name", name.kind = "tuple_pattern"

instance (n : Node) : Decidable (IsTuple n) :=
  decidable_of_iff (n.kind = "tuple_pattern" ∨ n.kind = "default_parameter" ∧
    (n.field? "name").any (·.kind == "tuple_pattern")) (by simp [IsTuple, Option.any_eq_true])

/-- Whether a node is stars with what follows them. -/
def IsStarred (n : Node) : Prop :=
  n.kind = "list_splat_pattern" ∨ n.kind = "dictionary_splat_pattern"

instance (n : Node) : Decidable (IsStarred n) :=
  inferInstanceAs (Decidable
    (n.kind = "list_splat_pattern" ∨ n.kind = "dictionary_splat_pattern"))

/-- The node with the stars in a parameter, before its type if it has one. -/
def starred? (n : Node) : Option Node :=
  (if n.kind = "typed_parameter" then n.parts.head? else some n).filter fun s =>
    decide (IsStarred s)

theorem mem_starred? {n s : Node} : s ∈ starred? n ↔
    IsStarred s ∧ (n = s ∨ n.kind = "typed_parameter" ∧ n.parts.head? = some s) := by
  rw [starred?, Option.mem_def, Option.filter_eq_some_iff, decide_eq_true_iff, and_comm]
  refine and_congr_right fun hstars => ?_
  split_ifs with hkind
  · refine ⟨fun hhead => .inr ⟨hkind, hhead⟩, ?_⟩
    rintro (rfl | ⟨-, hhead⟩)
    · obtain hs | hs := hstars <;> simp [hkind] at hs
    · exact hhead
  · simp [hkind]

/-- Whether a name follows the stars, with nothing in between. -/
def NamedAtOnce (n : Node) : Prop := ∃ name ∈ n.namedChildren.head?, name.kind = "identifier"

instance (n : Node) : Decidable (NamedAtOnce n) :=
  decidable_of_iff (n.namedChildren.head?.any (·.kind == "identifier"))
    (by simp [NamedAtOnce, Option.any_eq_true])

/-! ## What the grammar says of parameters -/

theorem somePart_function : grammar.somePart "function_definition" fun o =>
    o.field == some "name" := by
  decide +kernel

theorem everyPart_function : grammar.everyPart "function_definition" fun o =>
    o.field != some "parameters" || o.named && o.kind == "parameters" := by
  decide +kernel

/-- The kinds of parameters. -/
def parameterKinds : List String :=
  [ "identifier", "typed_parameter", "default_parameter", "typed_default_parameter",
    "list_splat_pattern", "tuple_pattern", "keyword_separator", "positional_separator",
    "dictionary_splat_pattern" ]

theorem everyPart_parameters : grammar.everyPart "parameters" fun o =>
    !o.named || parameterKinds.contains o.kind := by
  decide +kernel

theorem everyPart_default_parameter : grammar.everyPart "default_parameter" fun o =>
    o.field != some "name" || ["identifier", "tuple_pattern"].contains o.kind := by
  decide +kernel

theorem everyPart_typed_default_parameter : grammar.everyPart "typed_default_parameter" fun o =>
    o.field != some "name" || o.kind == "identifier" := by
  decide +kernel

theorem somePart_of_default : ∀ kind ∈ ["default_parameter", "typed_default_parameter"],
    grammar.somePart kind fun o => o.field == some "name" := by
  decide +kernel

/-- After the stars there is one node, a name or not. -/
theorem exists_target_of_yields {text : String} {ns : List Node}
    (h : grammar.Yields {} (.seq [Rules.t text, Rules.splatTarget]) ns) :
    ∃ star target, ns = [star, target] ∧ ¬ star.info.named ∧ target.info.named := by
  obtain ⟨_, _, hstar, hrest, rfl⟩ := Definition.yields_seq_cons.mp h
  obtain ⟨_, _, htarget, hnil, rfl⟩ := Definition.yields_seq_cons.mp hrest
  obtain rfl := Definition.yields_seq_nil.mp hnil
  obtain ⟨star, rfl, hlook, -⟩ := Definition.yields_token_of_literal? rfl rfl hstar
  have hread : (grammar.read (Definition.oneNode (·.named)) 16 {} Rules.splatTarget).2 := by
    decide +kernel
  obtain ⟨target, rfl, hnamed⟩ :=
    ((Definition.oneNode_sound (·.named)).fits htarget 16).2 hread
  refine ⟨star, target, rfl, ?_, hnamed⟩
  rw [show star.info.named = false from congrArg Outline.named hlook]
  exact Bool.false_ne_true

/-- A type stands after a name, or after stars with a name. -/
theorem exists_inner_of_yields {ns : List Node}
    (h : grammar.Yields {} (Rules.prec Rules.typedParameterLevel (.seq
      [ .choice [Rules.r "identifier", Rules.r "list_splat_pattern",
          Rules.r "dictionary_splat_pattern"], Rules.t ":",
        .field "type" (Rules.r "type") ])) ns) :
    ∃ inner, ns.head? = some inner ∧ inner.info.named ∧
      (inner.kind = "identifier" ∨ IsStarred inner) := by
  obtain ⟨_, _, hinner, -, rfl⟩ := Definition.yields_seq_cons.mp (Definition.yields_prec.mp h)
  have hread : (grammar.read (Definition.oneNode fun o => o.named &&
      ["identifier", "list_splat_pattern", "dictionary_splat_pattern"].contains o.kind) 16 {}
      (.choice [Rules.r "identifier", Rules.r "list_splat_pattern",
        Rules.r "dictionary_splat_pattern"])).2 := by
    decide +kernel
  obtain ⟨inner, rfl, hlook⟩ := ((Definition.oneNode_sound _).fits hinner 16).2 hread
  rw [Bool.and_eq_true, List.contains_iff_mem] at hlook
  have hkind : inner.kind ∈ ["identifier", "list_splat_pattern", "dictionary_splat_pattern"] :=
    hlook.2
  exact ⟨inner, rfl, hlook.1, by simpa [IsStarred] using hkind⟩

/-! ## Names of parameters -/

theorem parameter?_of_not_typed {n : Node} (h : n.kind ≠ "typed_parameter") :
    parameter? n = plainParameter? n := by
  cases n with
  | mk i children =>
    rw [parameter?]
    exact if_neg h

theorem parameter?_of_typed {n c : Node} (hkind : n.kind = "typed_parameter")
    (hhead : n.children.head? = some c) (hnamed : c.info.named) : parameter? n = parameter? c := by
  cases n with
  | mk i children =>
    cases children with
    | nil => cases hhead
    | cons d rest =>
      obtain rfl : d = c := Option.some.inj hhead
      rw [parameter?, firstParameter?, if_pos hnamed]
      exact if_pos hkind

/-- A child of a node of a tree that is no token. -/
structure IsChild (root n : Node) : Prop where
  parent : ∃ m ∈ root.preorder, n ∈ m.children
  named : n.info.named

namespace IsChild

variable {root n : Node}

theorem mem (hn : IsChild root n) : n ∈ root.preorder :=
  let ⟨_, hm, hchild⟩ := hn.parent
  Node.child_mem_preorder hm hchild

/-- The first named node after stars is the one of the grammar, or stands in between. -/
theorem exists_target (hn : IsChild root n) (h : Grammatical root) (hstars : IsStarred n) :
    ∃ star target e, n.parts = [star, target] ∧ n.namedChildren.head? = some e ∧
      (e = target ∨ IsExtra e) := by
  obtain ⟨star, target, hparts, hstar, htarget⟩ : ∃ star target, n.parts = [star, target] ∧
      ¬ star.info.named ∧ target.info.named := by
    obtain hkind | hkind := hstars
    · exact @exists_target_of_yields "*" _ (h.rules n hn.mem hn.named _ (by rw [hkind]; rfl))
    · exact @exists_target_of_yields "**" _ (h.rules n hn.mem hn.named _ (by rw [hkind]; rfl))
  have hmem : target ∈ n.namedChildren := by
    have : target ∈ n.parts := by simp [hparts]
    exact List.mem_filter.mpr ⟨(List.mem_filter.mp this).1, htarget⟩
  obtain ⟨e, he⟩ := Option.isSome_iff_exists.mp (List.isSome_head?.mpr (List.ne_nil_of_mem hmem))
  refine ⟨star, target, e, hparts, he, ?_⟩
  obtain ⟨hchild, hnamed⟩ := List.mem_filter.mp (List.mem_of_mem_head? he)
  by_cases hextra : e.info.extra
  · exact .inr (h.extras e (Node.child_mem_preorder hn.mem hchild) hextra)
  · have : e ∈ n.parts := List.mem_filter.mpr ⟨hchild, by simpa using hextra⟩
    rw [hparts, List.mem_cons, List.mem_singleton] at this
    obtain rfl | rfl := this
    · exact absurd hnamed hstar
    · exact .inl rfl

/-- A parameter with a type is named by what stands before the type. -/
theorem exists_inner (hn : IsChild root n) (h : Grammatical root)
    (hkind : n.kind = "typed_parameter") :
    ∃ inner, n.parts.head? = some inner ∧ IsChild root inner ∧
      (inner.kind = "identifier" ∨ IsStarred inner) ∧ parameter? n = parameter? inner := by
  have hbody := h.rules n hn.mem hn.named _ (by rw [hkind]; rfl)
  obtain ⟨inner, hhead, hnamed, hinner⟩ := exists_inner_of_yields hbody
  have hchild : inner ∈ n.children := (List.mem_filter.mp (List.mem_of_mem_head? hhead)).1
  refine ⟨inner, hhead, ⟨⟨n, hn.mem, hchild⟩, hnamed⟩, hinner, ?_⟩
  refine parameter?_of_typed hkind ?_ hnamed
  obtain ⟨m, hm, hnm⟩ := hn.parent
  rw [← h.head?_parts hm hnm (by rw [hkind]; rfl)]
  exact hhead

end IsChild

/-- The stars of a parameter. -/
def starsOf (n : Node) : String := if n.kind = "list_splat_pattern" then "*" else "**"

/-- What is read of a parameter with stars is the first named node after them. -/
theorem parameter?_of_isStarred {n e : Node} (hstars : IsStarred n)
    (he : n.namedChildren.head? = some e) : parameter? n = some (starsOf n ++ e.text) := by
  have hname : starredName n = e.text := by rw [starredName, he, Option.map_some, Option.getD_some]
  obtain hkind | hkind := hstars
  all_goals
    rw [parameter?_of_not_typed (by rw [hkind]; decide)]
    simp [plainParameter?, starsOf, hkind, hname]

/-! ## What is read and what is declared -/

theorem NamedAtOnce.eq_target {n target e : Node} (hat : NamedAtOnce n)
    (he : n.namedChildren.head? = some e) (hor : e = target ∨ IsExtra e) :
    e = target ∧ target.kind = "identifier" := by
  obtain ⟨name, hname, hkind⟩ := hat
  obtain rfl : e = name := Option.some.inj (he.symm.trans hname)
  obtain rfl | hextra := hor
  · exact ⟨rfl, hkind⟩
  · exact absurd (hkind ▸ hextra.kind) (by decide)

theorem Declares.name_of_isStarred {n : Node} {p : Parameter} (hdecl : Declares n p)
    (hstars : IsStarred n) : ∃ star name, n.parts = [star, name] ∧ name.kind = "identifier" := by
  cases hdecl with
  | arguments _ hparts hname => exact ⟨_, _, hparts, hname⟩
  | keywords _ hparts hname => exact ⟨_, _, hparts, hname⟩
  | defaulted hkind => obtain hkind | hkind := hkind <;> simp [IsStarred, hkind] at hstars
  | _ => simp_all [IsStarred]

section

variable {root n s : Node} {p : Parameter} (h : Grammatical root) (hn : IsChild root n)
include h hn

/-- The stars of a parameter are read and declared with or without a type. -/
theorem transfer_starred (hs : s ∈ starred? n) :
    IsChild root s ∧ parameter? n = parameter? s ∧ ∀ p, Declares n p → Declares s p := by
  obtain ⟨-, rfl | ⟨hkind, hhead⟩⟩ := mem_starred?.mp hs
  · exact ⟨hn, rfl, fun _ => id⟩
  · obtain ⟨inner, hinner, hchild, -, hread⟩ := hn.exists_inner h hkind
    obtain rfl : inner = s := Option.some.inj (hinner.symm.trans hhead)
    refine ⟨hchild, hread, fun p hdecl => ?_⟩
    cases hdecl with
    | typed _ hinner hdecl =>
      obtain rfl := Option.some.inj (hinner.symm.trans hhead)
      exact hdecl
    | _ => simp_all

theorem parameter?_of_declares (hdecl : Declares n p) (hstars : ∀ s ∈ starred? n, NamedAtOnce s) :
    parameter? n = some p.render := by
  induction hdecl with
  | plain hkind =>
    rw [parameter?_of_not_typed (by rw [hkind]; decide)]
    simp [plainParameter?, hkind, Parameter.render]
  | defaulted hkind hfield hname =>
    obtain hkind | hkind := hkind
    all_goals
      rw [parameter?_of_not_typed (by rw [hkind]; decide)]
      simp [plainParameter?, hkind, hfield, Parameter.render]
  | typed hkind hhead hdecl ih =>
    rename_i n inner p
    obtain ⟨inner', hinner, hchild, hor, hread⟩ := hn.exists_inner h hkind
    obtain rfl : inner' = inner := Option.some.inj (hinner.symm.trans hhead)
    rw [hread]
    refine ih hchild fun s hs => hstars s ?_
    obtain ⟨hs, rfl | ⟨htyped, -⟩⟩ := mem_starred?.mp hs
    · exact mem_starred?.mpr ⟨hs, .inr ⟨hkind, hhead⟩⟩
    · obtain hinner | hinner | hinner := hor <;> simp [hinner] at htyped
  | arguments hkind hparts hname =>
    obtain ⟨star, target, e, hparts', he, hor⟩ := hn.exists_target h (.inl hkind)
    obtain ⟨rfl, -⟩ := (hstars _ (mem_starred?.mpr ⟨.inl hkind, .inl rfl⟩)).eq_target he hor
    rw [hparts, List.cons.injEq, List.cons.injEq] at hparts'
    rw [parameter?_of_isStarred (.inl hkind) he, starsOf, if_pos hkind, Parameter.render,
      hparts'.2.1]
  | keywords hkind hparts hname =>
    obtain ⟨star, target, e, hparts', he, hor⟩ := hn.exists_target h (.inr hkind)
    obtain ⟨rfl, -⟩ := (hstars _ (mem_starred?.mpr ⟨.inr hkind, .inl rfl⟩)).eq_target he hor
    rw [hparts, List.cons.injEq, List.cons.injEq] at hparts'
    rw [parameter?_of_isStarred (.inr hkind) he, starsOf, if_neg (by rw [hkind]; decide),
      Parameter.render, hparts'.2.1]
  | keywordMark hkind =>
    rw [parameter?_of_not_typed (by rw [hkind]; decide)]
    simp [plainParameter?, hkind, Parameter.render]
  | positionalMark hkind =>
    rw [parameter?_of_not_typed (by rw [hkind]; decide)]
    simp [plainParameter?, hkind, Parameter.render]

theorem exists_declares_of_isStarred (hstars : IsStarred n) (hat : NamedAtOnce n) :
    ∃ p, Declares n p := by
  obtain ⟨star, target, e, hparts, he, hor⟩ := hn.exists_target h hstars
  obtain ⟨rfl, hname⟩ := hat.eq_target he hor
  obtain hkind | hkind := hstars
  · exact ⟨_, .arguments hkind hparts hname⟩
  · exact ⟨_, .keywords hkind hparts hname⟩

theorem exists_field_of_default
    (hkind : n.kind = "default_parameter" ∨ n.kind = "typed_default_parameter") :
    ∃ name, n.field? "name" = some name ∧
      (name.kind = "identifier" ∨ n.kind = "default_parameter" ∧ name.kind = "tuple_pattern") := by
  obtain ⟨name, hname⟩ := h.exists_field hn.mem hn.named rfl
    (somePart_of_default n.kind (by simpa using hkind))
  have hmem := List.mem_of_mem_head? hname
  have hfield : name.info.field = some "name" := beq_iff_eq.mp (List.mem_filter.mp hmem).2
  refine ⟨name, hname, ?_⟩
  obtain hkind | hkind := hkind
  · have := h.every_part hn.mem hn.named hkind everyPart_default_parameter name
      (h.mem_parts_of_field hn.mem hmem)
    have : name.kind = "identifier" ∨ name.kind = "tuple_pattern" := by
      simpa [Node.outline, hfield] using this
    exact this.imp id fun htuple => ⟨hkind, htuple⟩
  · have := h.every_part hn.mem hn.named hkind everyPart_typed_default_parameter name
      (h.mem_parts_of_field hn.mem hmem)
    exact .inl (by simpa [Node.outline, hfield] using this)

theorem exists_declares (hkind : n.kind ∈ parameterKinds) (htuple : ¬ IsTuple n)
    (hstars : ∀ s ∈ starred? n, NamedAtOnce s) : ∃ p, Declares n p := by
  have hdefault (hkind : n.kind = "default_parameter" ∨ n.kind = "typed_default_parameter") :
      ∃ p, Declares n p := by
    obtain ⟨name, hfield, hname | ⟨hkind', hname⟩⟩ := exists_field_of_default h hn hkind
    · exact ⟨_, .defaulted hkind hfield hname⟩
    · exact absurd (.inr ⟨hkind', name, hfield, hname⟩) htuple
  have hstarred (hkind : IsStarred n) : ∃ p, Declares n p :=
    exists_declares_of_isStarred h hn hkind (hstars n (mem_starred?.mpr ⟨hkind, .inl rfl⟩))
  simp only [parameterKinds, List.mem_cons, List.not_mem_nil, or_false] at hkind
  obtain hkind | hkind | hkind | hkind | hkind | hkind | hkind | hkind | hkind := hkind
  · exact ⟨_, .plain hkind⟩
  · obtain ⟨inner, hhead, hchild, hname | hinner, -⟩ := hn.exists_inner h hkind
    · exact ⟨_, .typed hkind hhead (.plain hname)⟩
    · obtain ⟨p, hp⟩ := exists_declares_of_isStarred h hchild hinner
        (hstars inner (mem_starred?.mpr ⟨hinner, .inr ⟨hkind, hhead⟩⟩))
      exact ⟨p, .typed hkind hhead hp⟩
  · exact hdefault (.inl hkind)
  · exact hdefault (.inr hkind)
  · exact hstarred (.inl hkind)
  · exact absurd (.inl hkind) htuple
  · exact ⟨_, .keywordMark hkind⟩
  · exact ⟨_, .positionalMark hkind⟩
  · exact hstarred (.inr hkind)

/-- What stands between the stars and a name is read in place of the name. -/
theorem exists_startsExtra_of_declares (hdecl : Declares n p) (hs : s ∈ starred? n)
    (hnot : ¬ NamedAtOnce s) : ∃ t, parameter? n = some t ∧ ∃ c ∈ t.toList, startsExtra c := by
  have hstars := (mem_starred?.mp hs).1
  obtain ⟨hchild, hread, hdecl'⟩ := transfer_starred h hn hs
  obtain ⟨star, target, e, hparts, he, hor⟩ := hchild.exists_target h hstars
  obtain ⟨_, name, hparts', hname⟩ := (hdecl' p hdecl).name_of_isStarred hstars
  obtain rfl : name = target := by
    rw [hparts, List.cons.injEq, List.cons.injEq] at hparts'
    exact hparts'.2.1.symm
  obtain rfl | hextra := hor
  · exact absurd ⟨e, he, hname⟩ hnot
  · obtain ⟨c, hc, hstarts⟩ := hextra.exists_startsExtra
    exact ⟨_, hread.trans (parameter?_of_isStarred hstars he), c, by simp [hc], hstarts⟩

omit h in
theorem name_mem_preorder {star name : Node} (hparts : n.parts = [star, name]) :
    name ∈ root.preorder := by
  have hmem : name ∈ n.parts := by simp [hparts]
  exact Node.child_mem_preorder hn.mem (List.mem_filter.mp hmem).1

omit hn in
theorem not_startsExtra_of_identifier {m : Node} (hm : m ∈ root.preorder)
    (hkind : m.kind = "identifier") : ∀ c ∈ m.text.toList, ¬ startsExtra c :=
  fun _ hc hstarts => not_isIdentifierContinue_of_isSpacing (.inr hstarts)
    (isIdentifierContinue_of_isIdentifier (h.words m hm hkind) hc)

/-- No comment starts in a parameter as it is written. -/
theorem Declares.not_startsExtra (hdecl : Declares n p) :
    ∀ c ∈ p.render.toList, ¬ startsExtra c := by
  have hmarks : ∀ c ∈ ['*', '/'], ¬ startsExtra c := by simp [startsExtra]
  induction hdecl with
  | plain hkind => exact not_startsExtra_of_identifier h hn.mem hkind
  | defaulted hkind hfield hname =>
    have hmem := (List.mem_filter.mp (List.mem_of_mem_head? hfield)).1
    exact not_startsExtra_of_identifier h (Node.child_mem_preorder hn.mem hmem) hname
  | typed hkind hhead hdecl ih =>
    obtain ⟨inner, hinner, hchild, -⟩ := hn.exists_inner h hkind
    obtain rfl := Option.some.inj (hinner.symm.trans hhead)
    exact ih hchild
  | arguments hkind hparts hname =>
    have hname := not_startsExtra_of_identifier h (name_mem_preorder hn hparts) hname
    simpa [Parameter.render, hmarks] using hname
  | keywords hkind hparts hname =>
    have hname := not_startsExtra_of_identifier h (name_mem_preorder hn hparts) hname
    simpa [Parameter.render, hmarks] using hname
  | keywordMark hkind => simpa [Parameter.render] using hmarks '*' (by simp)
  | positionalMark hkind => simpa [Parameter.render] using hmarks '/' (by simp)

end

/-! ## Signatures -/

/-- A parameter list with the parameters as they are written and nothing else. -/
def renderSignature (ps : List Parameter) : String :=
  "(" ++ ", ".intercalate (ps.map Parameter.render) ++ ")"

theorem parameter?_of_isExtra {n : Node} (hn : IsExtra n) : parameter? n = none := by
  have hkind : n.kind = "comment" ∨ n.kind = "line_continuation" := by
    simpa [grammar] using hn.kind
  obtain hkind | hkind := hkind
  all_goals
    rw [parameter?_of_not_typed (by rw [hkind]; decide)]
    simp [plainParameter?, hkind]

theorem mem_toList_renderSignature {ps : List Parameter} {c : Char}
    (hc : c ∈ (renderSignature ps).toList) :
    c ∈ ['(', ')', ',', ' '] ∨ ∃ p ∈ ps, c ∈ p.render.toList := by
  rw [renderSignature, String.toList_append, String.toList_append, List.mem_append,
    List.mem_append] at hc
  obtain (hc | hc) | hc := hc
  · exact .inl (by simp_all)
  · obtain hc | ⟨s, hs, hc⟩ := mem_toList_intercalate hc
    · exact .inl (by simp_all)
    · obtain ⟨p, hp, rfl⟩ := List.mem_map.mp hs
      exact .inr ⟨p, hp, hc⟩
  · exact .inl (by simp_all)

theorem filterMap_parameter?_eq {ns : List Node} {ps : List Parameter}
    (hps : List.Forall₂ Declares ns ps)
    (hread : ∀ n ∈ ns, ∀ p, Declares n p → parameter? n = some p.render) :
    ns.filterMap parameter? = ps.map Parameter.render := by
  induction hps with
  | nil => rfl
  | cons hdecl _ ih =>
    obtain ⟨hfirst, hrest⟩ := List.forall_mem_cons.mp hread
    rw [List.filterMap_cons_some (hfirst _ hdecl), ih hrest, List.map_cons]

section

variable {root d : Node} (h : Grammatical root) (hd : d ∈ root.preorder) (hnamed : d.info.named)
  (hkind : d.kind = "function_definition")
include h hd

/-- Comments and continued lines between parameters are left out of a signature. -/
theorem signature_eq : signature (d.field? "parameters") =
    "(" ++ ", ".intercalate ((parameterNodes d).filterMap parameter?) ++ ")" := by
  unfold signature parameterNodes
  cases hparameters : d.field? "parameters" with
  | none => rfl
  | some n =>
    have hn := (List.mem_filter.mp (List.mem_of_mem_head? hparameters)).1
    have hn := Node.child_mem_preorder hd hn
    have hnames : n.namedChildren.filterMap parameter? =
        (n.parts.filter (·.info.named)).filterMap parameter? := by
      rw [Node.namedChildren, Node.parts, List.filter_filter, List.filterMap_filter,
        List.filterMap_filter]
      refine List.filterMap_congr fun c hc => ?_
      by_cases hextra : c.info.extra
      · simp [parameter?_of_isExtra (h.extras c (Node.child_mem_preorder hn hc) hextra)]
      · simp [hextra]
    rw [Option.map_some, Option.getD_some, ← hnames]

include hnamed hkind

theorem isChild_of_mem_parameterNodes {n : Node} (hn : n ∈ parameterNodes d) :
    IsChild root n ∧ n.kind ∈ parameterKinds := by
  unfold parameterNodes at hn
  cases hparameters : d.field? "parameters" with
  | none => simp [hparameters] at hn
  | some m =>
    rw [hparameters, Option.map_some, Option.getD_some, List.mem_filter] at hn
    have hm := List.mem_of_mem_head? hparameters
    have hfield : m.info.field = some "parameters" := beq_iff_eq.mp (List.mem_filter.mp hm).2
    have hlook := h.every_part hd hnamed hkind everyPart_function m (h.mem_parts_of_field hd hm)
    have hlook : m.info.named ∧ m.kind = "parameters" := by
      simpa [Node.outline, hfield] using hlook
    have hmem := Node.child_mem_preorder hd (List.mem_filter.mp hm).1
    refine ⟨⟨⟨m, hmem, (List.mem_filter.mp hn.1).1⟩, hn.2⟩, ?_⟩
    have := h.every_part hmem hlook.1 hlook.2 everyPart_parameters n hn.1
    simpa [Node.outline, hn.2] using this

/-- Each parameter is declared if a name follows all stars at once. -/
theorem exists_parameters (htuple : ∀ n ∈ parameterNodes d, ¬ IsTuple n)
    (hstars : ∀ n ∈ parameterNodes d, ∀ s ∈ starred? n, NamedAtOnce s) :
    ∃ ps, List.Forall₂ Declares (parameterNodes d) ps := by
  refine exists_forall₂ fun n hn => ?_
  obtain ⟨hchild, hkind⟩ := isChild_of_mem_parameterNodes h hd hnamed hkind hn
  exact exists_declares h hchild hkind (htuple n hn) (hstars n hn)

/-- The signature is made of the parameters as they are declared exactly if a name follows all
stars at once. -/
theorem signature_eq_iff {ps : List Parameter}
    (hps : List.Forall₂ Declares (parameterNodes d) ps) :
    signature (d.field? "parameters") = renderSignature ps ↔
      ∀ n ∈ parameterNodes d, ∀ s ∈ starred? n, NamedAtOnce s := by
  have hchild {n : Node} (hn : n ∈ parameterNodes d) : IsChild root n :=
    (isChild_of_mem_parameterNodes h hd hnamed hkind hn).1
  rw [signature_eq h hd]
  refine ⟨fun heq n hn s hs => ?_, fun hstars => ?_⟩
  · -- a comment that is read in place of a name is in no parameter as it is written
    by_contra hnot
    obtain ⟨p, -, hdecl⟩ := (exists_of_forall₂ hps).1 n hn
    obtain ⟨t, ht, c, hc, hstarts⟩ :=
      exists_startsExtra_of_declares h (hchild hn) hdecl hs hnot
    have hread : c ∈ (", ".intercalate ((parameterNodes d).filterMap parameter?)).toList :=
      mem_toList_intercalate_of_mem (List.mem_filterMap.mpr ⟨n, hn, ht⟩) hc
    have hsigns : ∀ c ∈ ['(', ')', ',', ' '], ¬ startsExtra c := by simp [startsExtra]
    have hmem : c ∈ (renderSignature ps).toList := by
      rw [← heq, String.toList_append, String.toList_append]
      exact List.mem_append_left _ (List.mem_append_right _ hread)
    obtain hmem | ⟨p, hp, hmem⟩ := mem_toList_renderSignature hmem
    · exact hsigns c hmem hstarts
    · obtain ⟨m, hm, hdecl⟩ := (exists_of_forall₂ hps).2 p hp
      exact hdecl.not_startsExtra h (hchild hm) c hmem hstarts
  · rw [renderSignature, filterMap_parameter?_eq hps fun n hn p hdecl =>
      parameter?_of_declares h (hchild hn) hdecl (hstars n hn)]

end

/-- A function definition has a signature. If it has no tuple parameters, and a name follows
all stars at once, each of its parameters is declared, and the signature is made of them as
they are written, whatever types, defaults, comments and blanks there are. If something stands
between stars and a name, the signature is not made of the parameters that are declared. -/
theorem signature_of_parameters {root d : Node} (h : Grammatical root) (hd : d ∈ root.preorder)
    (hnamed : d.info.named) (hkind : d.kind = "function_definition") (decorators : List String)
    (htuple : ∀ n ∈ parameterNodes d, ¬ IsTuple n) :
    ∃ f, functionFacts? decorators d = some f ∧
      ((∀ n ∈ parameterNodes d, ∀ s ∈ starred? n, NamedAtOnce s) →
        ∃ ps, List.Forall₂ Declares (parameterNodes d) ps) ∧
      ∀ ps, List.Forall₂ Declares (parameterNodes d) ps →
        (f.signature = renderSignature ps ↔
          ∀ n ∈ parameterNodes d, ∀ s ∈ starred? n, NamedAtOnce s) := by
  obtain ⟨name, hname⟩ := h.exists_field hd hnamed hkind somePart_function
  refine ⟨_, by rw [functionFacts?, hname, Option.map_some],
    exists_parameters h hd hnamed hkind htuple, fun ps hps => ?_⟩
  exact signature_eq_iff h hd hnamed hkind hps

/-- The tree of `def f(a, *args: t): pass`, with a comment between the star and the name or
without. -/
def starredFunction (commented : Bool) : Node :=
  let gap := if commented then "# c\n" else ""
  let place (byte : Nat) : Position :=
    if commented && 14 ≤ byte then ⟨byte, 1, byte - 14⟩ else ⟨byte, 0, byte⟩
  let node (kind : String) (named : Bool) (field : Option String) (start stop : Nat)
      (text : String) : List Node → Node :=
    .mk ⟨kind, named, false, false, field, place start, place stop, text⟩
  let comment : Node := .mk ⟨"comment", true, true, false, none, place 10, ⟨13, 0, 13⟩, "# c"⟩ []
  let name := 10 + gap.utf8ByteSize
  node "function_definition" true none 0 (name + 14) ("def f(a, *" ++ gap ++ "args: t): pass")
    [ node "def" false none 0 3 "def" [],
      node "identifier" true (some "name") 4 5 "f" [],
      node "parameters" true (some "parameters") 5 (name + 8) ("(a, *" ++ gap ++ "args: t)")
        [ node "(" false none 5 6 "(" [],
          node "identifier" true none 6 7 "a" [],
          node "," false none 7 8 "," [],
          node "typed_parameter" true none 9 (name + 7) ("*" ++ gap ++ "args: t")
            [ node "list_splat_pattern" true none 9 (name + 4) ("*" ++ gap ++ "args")
                ([node "*" false none 9 10 "*" []] ++ (if commented then [comment] else []) ++
                  [node "identifier" true none name (name + 4) "args" []]),
              node ":" false none (name + 4) (name + 5) ":" [],
              node "type" true (some "type") (name + 6) (name + 7) "t"
                [node "identifier" true none (name + 6) (name + 7) "t" []] ],
          node ")" false none (name + 7) (name + 8) ")" [] ],
      node ":" false none (name + 8) (name + 9) ":" [],
      node "block" true (some "body") (name + 10) (name + 14) "pass"
        [ node "pass_statement" true none (name + 10) (name + 14) "pass"
            [node "pass" false none (name + 10) (name + 14) "pass" []] ] ]

theorem declares_starredFunction (commented : Bool) :
    List.Forall₂ Declares (parameterNodes (starredFunction commented))
      [.plain "a", .arguments "args"] := by
  have hargs (n star name : Node) (hkind : n.kind = "list_splat_pattern")
      (hparts : n.parts = [star, name]) (hname : name.kind = "identifier")
      (htext : name.text = "args") : Declares n (.arguments "args") :=
    htext ▸ .arguments hkind hparts hname
  cases commented <;>
    exact .cons (.plain rfl) (.cons (.typed rfl rfl (hargs _ _ _ rfl rfl rfl rfl)) .nil)

/-- A comment after a star is read in place of the name. -/
theorem signature_starredFunction :
    Grammatical (starredFunction false) ∧ Grammatical (starredFunction true) ∧
      ∃ f g, functionFacts? [] (starredFunction false) = some f ∧
        functionFacts? [] (starredFunction true) = some g ∧
        f.signature = "(a, *args)" ∧ g.signature ≠ "(a, *args)" := by
  have hplain : Grammatical (starredFunction false) :=
    grammatical_of_conforms (by decide +kernel : (starredFunction false).preorder.all (conforms 32))
  have hcommented : Grammatical (starredFunction true) :=
    grammatical_of_conforms (by decide +kernel : (starredFunction true).preorder.all (conforms 32))
  obtain ⟨f, hf, -, hfiff⟩ := signature_of_parameters hplain (Node.self_mem_preorder _) rfl rfl []
    (by decide +kernel)
  obtain ⟨g, hg, -, hgiff⟩ := signature_of_parameters hcommented (Node.self_mem_preorder _) rfl rfl
    [] (by decide +kernel)
  refine ⟨hplain, hcommented, f, g, hf, hg, ?_, ?_⟩
  · exact (hfiff _ (declares_starredFunction false)).mpr (by decide +kernel)
  · exact (hgiff _ (declares_starredFunction true)).not.mpr (by decide +kernel)

end CodeAtlas.Source
