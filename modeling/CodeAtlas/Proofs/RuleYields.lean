import CodeAtlas.Proofs.SyntaxTree
import CodeAtlas.Grammar.Production
import Mathlib.Tactic.SplitIfs

/-!
# What the rules of a grammar say of the nodes of a tree

A rule body stands for rows of nodes : the parts of a node, hidden rules opened up, each under
the kind and the field by which it is shown (`Definition.Yields`). What is asked of such rows
is computed from the rule body, by a `Reading` : whether all nodes look in some way, whether
one does, whether there is one only. A reading is true of what the body yields if it is sound
for the pieces (`Reading.Sound.fits`).

`Definition.rests` reads the nodes of a rule body off a row, which tells for a given row that
the body yields it (`yields_of_nil_mem_rests`).
-/

namespace CodeAtlas.Syntax

open CodeAtlas.Grammar

/-- How a node looks to its parent. -/
structure Outline where
  kind : String
  named : Bool
  field : Option String
  deriving DecidableEq

namespace Node

/-- What a rule asks of a node. -/
def outline (n : Node) : Outline := ⟨n.kind, n.info.named, n.info.field⟩

/-- The children that a rule asks for : all but those that may stand anywhere. -/
def parts (n : Node) : List Node := n.children.filter fun c => !c.info.extra

end Node

end CodeAtlas.Syntax

namespace CodeAtlas.Grammar.Definition

open CodeAtlas.Syntax

variable {τ : Type} (d : Definition τ)

/-! ## What a rule body yields -/

/-- How the node of a token looks; `none` for a hidden one. -/
def tokenOutline? (sh : Showing) (t : τ) : Option Outline :=
  match sh.shown, d.literal? t with
  | some as, _ => some ⟨as.kind, as.named, sh.field⟩
  | none, some text => some ⟨text, false, sh.field⟩
  | none, none => none

/-- How the node of a name looks; `none` for a hidden one. -/
def refOutline? (sh : Showing) (name : String) : Option Outline :=
  if d.inlined.contains name then none
  else
    match sh.shown, d.shownAs.lookup name with
    | some as, _ => some ⟨as.kind, as.named, sh.field⟩
    | none, some as => some ⟨as.kind, as.named, sh.field⟩
    | none, none =>
      if isHiddenName name || d.classes.contains name then none else some ⟨name, true, sh.field⟩

/-- Whether nodes in a row are what a rule body stands for. -/
inductive Yields : Showing → Rule τ → List Node → Prop where
  | blank {sh : Showing} : Yields sh .blank []
  | token {sh : Showing} {t : τ} {n : Node} (hlook : d.tokenOutline? sh t = some n.outline)
      (htext : ∀ text, d.literal? t = some text → n.text = text) : Yields sh (.token t) [n]
  | hiddenToken {sh : Showing} {t : τ} (hlook : d.tokenOutline? sh t = none) :
      Yields sh (.token t) []
  | ref {sh : Showing} {name : String} {n : Node} (hlook : d.refOutline? sh name = some n.outline) :
      Yields sh (.ref name) [n]
  | hidden {sh : Showing} {name : String} {body : Rule τ} {ns : List Node}
      (hlook : d.refOutline? sh name = none) (hbody : d.rules.lookup name = some body)
      (h : Yields sh body ns) : Yields sh (.ref name) ns
  | scanned {sh : Showing} {name : String} (hlook : d.refOutline? sh name = none)
      (hbody : d.rules.lookup name = none) : Yields sh (.ref name) []
  | nil {sh : Showing} : Yields sh (.seq []) []
  | cons {sh : Showing} {part : Rule τ} {parts : List (Rule τ)} {ns ms : List Node}
      (hpart : Yields sh part ns) (hparts : Yields sh (.seq parts) ms) :
      Yields sh (.seq (part :: parts)) (ns ++ ms)
  | choice {sh : Showing} {part : Rule τ} {parts : List (Rule τ)} {ns : List Node}
      (hmem : part ∈ parts) (h : Yields sh part ns) : Yields sh (.choice parts) ns
  | one {sh : Showing} {body : Rule τ} {ns : List Node} (h : Yields sh body ns) :
      Yields sh (.many1 body) ns
  | more {sh : Showing} {body : Rule τ} {ns ms : List Node} (h : Yields sh body ns)
      (hrest : Yields sh (.many1 body) ms) : Yields sh (.many1 body) (ns ++ ms)
  | prec {sh : Showing} {level : Int} {side : Option Side} {body : Rule τ} {ns : List Node}
      (h : Yields sh body ns) : Yields sh (.prec level side body) ns
  | dynamic {sh : Showing} {level : Int} {body : Rule τ} {ns : List Node} (h : Yields sh body ns) :
      Yields sh (.dynamic level body) ns
  | field {sh : Showing} {name : String} {body : Rule τ} {ns : List Node}
      (h : Yields { sh with field := some name } body ns) : Yields sh (.field name body) ns
  | shown {sh : Showing} {as : Alias} {body : Rule τ} {ns : List Node}
      (h : Yields { sh with shown := some as } body ns) : Yields sh (.shown as body) ns

variable {d} {sh : Showing} {ns : List Node}

theorem yields_seq_nil : d.Yields sh (.seq []) ns ↔ ns = [] := by
  constructor
  · intro h
    cases h
    rfl
  · rintro rfl
    exact .nil

theorem yields_seq_cons {part : Rule τ} {parts : List (Rule τ)} :
    d.Yields sh (.seq (part :: parts)) ns ↔
      ∃ xs ys, d.Yields sh part xs ∧ d.Yields sh (.seq parts) ys ∧ ns = xs ++ ys := by
  constructor
  · intro h
    cases h with
    | cons hpart hparts => exact ⟨_, _, hpart, hparts, rfl⟩
  · rintro ⟨xs, ys, hpart, hparts, rfl⟩
    exact .cons hpart hparts

theorem yields_choice {parts : List (Rule τ)} :
    d.Yields sh (.choice parts) ns ↔ ∃ part ∈ parts, d.Yields sh part ns := by
  constructor
  · intro h
    cases h with
    | choice hmem h => exact ⟨_, hmem, h⟩
  · rintro ⟨part, hmem, h⟩
    exact .choice hmem h

theorem yields_prec {level : Int} {side : Option Side} {body : Rule τ} :
    d.Yields sh (.prec level side body) ns ↔ d.Yields sh body ns := by
  constructor
  · intro h
    cases h with
    | prec h => exact h
  · exact .prec

/-- A token that is written in only one way shows as that text. -/
theorem yields_token_of_literal? {t : τ} {text : String} (ht : d.literal? t = some text)
    (hsh : sh.shown = none) (h : d.Yields sh (.token t) ns) :
    ∃ n, ns = [n] ∧ n.outline = ⟨text, false, sh.field⟩ ∧ n.text = text := by
  have houtline : d.tokenOutline? sh t = some ⟨text, false, sh.field⟩ := by
    rw [tokenOutline?, hsh, ht]
  cases h with
  | token hlook htext =>
    rw [houtline] at hlook
    exact ⟨_, rfl, (Option.some.inj hlook).symm, htext text ht⟩
  | hiddenToken hlook =>
    rw [houtline] at hlook
    cases hlook

/-- A rule that is shown as one node yields just that node. -/
theorem yields_ref_of_refOutline? {name : String} {o : Outline}
    (ho : d.refOutline? sh name = some o) (h : d.Yields sh (.ref name) ns) :
    ∃ n, ns = [n] ∧ n.outline = o := by
  cases h with
  | ref hlook =>
    rw [ho] at hlook
    exact ⟨_, rfl, (Option.some.inj hlook).symm⟩
  | hidden hlook =>
    rw [ho] at hlook
    cases hlook
  | scanned hlook =>
    rw [ho] at hlook
    cases hlook

theorem yields_opt {body : Rule τ} :
    d.Yields sh (.opt body) ns ↔ d.Yields sh body ns ∨ ns = [] := by
  constructor
  · intro h
    obtain ⟨part, hmem, hpart⟩ := yields_choice.mp h
    simp only [List.mem_cons, List.not_mem_nil, or_false] at hmem
    obtain rfl | rfl := hmem
    · exact .inl hpart
    · cases hpart
      exact .inr rfl
  · rintro (h | rfl)
    · exact .choice List.mem_cons_self h
    · exact .choice (List.mem_cons_of_mem _ List.mem_cons_self) .blank

/-- Repetitions are rows, one after the other. -/
theorem exists_rows_of_many1 {body : Rule τ} (h : d.Yields sh (.many1 body) ns) :
    ∃ rows : List (List Node), (∀ row ∈ rows, d.Yields sh body row) ∧ ns = rows.flatten := by
  generalize hrule : Rule.many1 body = rule at h
  induction h with
  | one hbody =>
    cases hrule
    exact ⟨[_], by simpa using hbody, by simp⟩
  | more hbody _ _ ih =>
    cases hrule
    obtain ⟨rows, hrows, rfl⟩ := ih rfl
    exact ⟨_ :: rows, List.forall_mem_cons.mpr ⟨hbody, hrows⟩, rfl⟩
  | _ => cases hrule

/-- A repetition yields row after row of what its body yields. -/
theorem exists_rows_of_many {body : Rule τ} (h : d.Yields sh (.many body) ns) :
    ∃ rows : List (List Node), (∀ row ∈ rows, d.Yields sh body row) ∧ ns = rows.flatten := by
  obtain hmany | rfl := yields_opt.mp h
  · exact exists_rows_of_many1 hmany
  · exact ⟨[], by simp, rfl⟩

/-! ## Facts that are computed from a rule body -/

/-- A way to describe rows of nodes, piece by piece as a rule body puts them together. -/
structure Reading (β : Type) where
  /-- The description of any row. -/
  unknown : β
  node : Outline → β
  nothing : β
  append : β → β → β
  choice : List β → β
  repeated : β → β

/-- Whether the descriptions are true of the rows that they are made for. -/
structure Reading.Sound {β : Type} (a : Reading β) (Fits : β → List Node → Prop) : Prop where
  unknown : ∀ ns, Fits a.unknown ns
  node : ∀ n : Node, Fits (a.node n.outline) [n]
  nothing : Fits a.nothing []
  append : ∀ b c xs ys, Fits b xs → Fits c ys → Fits (a.append b c) (xs ++ ys)
  choice : ∀ bs, ∀ b ∈ bs, ∀ ns, Fits b ns → Fits (a.choice bs) ns
  once : ∀ b ns, Fits b ns → Fits (a.repeated b) ns
  again : ∀ b xs ys, Fits b xs → Fits (a.repeated b) ys → Fits (a.repeated b) (xs ++ ys)

variable (d) in
/-- The description of what a rule body yields, hidden rules opened up to a depth. -/
def read {β : Type} (a : Reading β) : Nat → Showing → Rule τ → β
  | 0, _, _ => a.unknown
  | depth + 1, sh, rule =>
    match rule with
    | .blank => a.nothing
    | .token t => ((d.tokenOutline? sh t).map a.node).getD a.nothing
    | .ref name =>
      match d.refOutline? sh name, d.rules.lookup name with
      | some o, _ => a.node o
      | none, some body => read a depth sh body
      | none, none => a.nothing
    | .seq [] => a.nothing
    | .seq (part :: parts) => a.append (read a depth sh part) (read a depth sh (.seq parts))
    | .choice parts => a.choice (parts.map (read a depth sh))
    | .many1 body => a.repeated (read a depth sh body)
    | .prec _ _ body => read a depth sh body
    | .dynamic _ body => read a depth sh body
    | .field name body => read a depth { sh with field := some name } body
    | .shown as body => read a depth { sh with shown := some as } body

section

variable {β : Type} {a : Reading β} {Fits : β → List Node → Prop} (ha : a.Sound Fits)
include ha

theorem Reading.Sound.fits_of_succ {rule : Rule τ}
    (h : ∀ depth, Fits (d.read a (depth + 1) sh rule) ns) (depth : Nat) :
    Fits (d.read a depth sh rule) ns := by
  cases depth with
  | zero => exact ha.unknown ns
  | succ depth => exact h depth

theorem Reading.Sound.fits_succ {rule : Rule τ} (h : d.Yields sh rule ns) (depth : Nat) :
    Fits (d.read a (depth + 1) sh rule) ns := by
  induction h generalizing depth with
  | blank => exact ha.nothing
  | token hlook _ =>
    rw [read, hlook]
    exact ha.node _
  | hiddenToken hlook =>
    rw [read, hlook]
    exact ha.nothing
  | ref hlook =>
    rw [read, hlook]
    exact ha.node _
  | hidden hlook hbody _ ih =>
    rw [read, hlook, hbody]
    exact ha.fits_of_succ ih depth
  | scanned hlook hbody =>
    rw [read, hlook, hbody]
    exact ha.nothing
  | nil => exact ha.nothing
  | cons _ _ ihpart ihparts =>
    rw [read]
    exact ha.append _ _ _ _ (ha.fits_of_succ ihpart depth) (ha.fits_of_succ ihparts depth)
  | choice hmem _ ih =>
    rw [read]
    exact ha.choice _ _ (List.mem_map_of_mem hmem) _ (ha.fits_of_succ ih depth)
  | one _ ih =>
    rw [read]
    exact ha.once _ _ (ha.fits_of_succ ih depth)
  | more _ _ ih ihrest =>
    have hrest := ihrest depth
    rw [read] at hrest ⊢
    exact ha.again _ _ _ (ha.fits_of_succ ih depth) hrest
  | prec _ ih => exact ha.fits_of_succ ih depth
  | dynamic _ ih => exact ha.fits_of_succ ih depth
  | field _ ih => exact ha.fits_of_succ ih depth
  | shown _ ih => exact ha.fits_of_succ ih depth

/-- What is read off a rule body is true of the nodes that it yields. -/
theorem Reading.Sound.fits {rule : Rule τ} (h : d.Yields sh rule ns) (depth : Nat) :
    Fits (d.read a depth sh rule) ns :=
  ha.fits_of_succ (ha.fits_succ h) depth

end

/-- Whether all nodes of a row look in some way. -/
def everyNode (p : Outline → Bool) : Reading Bool where
  unknown := false
  node := p
  nothing := true
  append := and
  choice := fun bs => bs.all id
  repeated := id

theorem everyNode_sound (p : Outline → Bool) :
    (everyNode p).Sound fun b ns => b = true → ∀ n ∈ ns, p n.outline = true where
  unknown _ h := nomatch h
  node n h := List.forall_mem_singleton.mpr h
  nothing _ := by simp
  append b c xs ys hb hc h := by
    obtain ⟨hb', hc'⟩ := Bool.and_eq_true_iff.mp h
    exact List.forall_mem_append.mpr ⟨hb hb', hc hc'⟩
  choice bs b hmem ns hb h := hb (List.all_eq_true.mp h b hmem)
  once _ _ hb := hb
  again b xs ys hb hc h := List.forall_mem_append.mpr ⟨hb h, hc h⟩

/-- Whether some node of a row looks in some way. -/
def someNode (p : Outline → Bool) : Reading Bool where
  unknown := false
  node := p
  nothing := false
  append := or
  choice := fun bs => bs.all id
  repeated := id

theorem someNode_sound (p : Outline → Bool) :
    (someNode p).Sound fun b ns => b = true → ∃ n ∈ ns, p n.outline = true where
  unknown _ h := nomatch h
  node n h := ⟨n, List.mem_singleton_self n, h⟩
  nothing h := nomatch h
  append b c xs ys hb hc h := by
    rcases Bool.or_eq_true_iff.mp h with h | h
    · obtain ⟨n, hn, hp⟩ := hb h
      exact ⟨n, List.mem_append_left _ hn, hp⟩
    · obtain ⟨n, hn, hp⟩ := hc h
      exact ⟨n, List.mem_append_right _ hn, hp⟩
  choice bs b hmem ns hb h := hb (List.all_eq_true.mp h b hmem)
  once _ _ hb := hb
  again b xs ys hb hc h := by
    obtain ⟨n, hn, hp⟩ := hb h
    exact ⟨n, List.mem_append_left _ hn, hp⟩

/-- Whether a row is empty, and whether it is one node that looks in some way. -/
def oneNode (p : Outline → Bool) : Reading (Bool × Bool) where
  unknown := (false, false)
  node := fun o => (false, p o)
  nothing := (true, false)
  append := fun b c => (b.1 && c.1, b.1 && c.2 || b.2 && c.1)
  choice := fun bs => (bs.all (·.1), bs.all (·.2))
  repeated := fun b => (b.1, false)

theorem oneNode_sound (p : Outline → Bool) :
    (oneNode p).Sound fun b ns =>
      (b.1 = true → ns = []) ∧ (b.2 = true → ∃ n, ns = [n] ∧ p n.outline = true) where
  unknown _ := ⟨nofun, nofun⟩
  node n := ⟨nofun, fun h => ⟨n, rfl, h⟩⟩
  nothing := ⟨fun _ => rfl, nofun⟩
  append b c xs ys hb hc := by
    refine ⟨fun h => ?_, fun h => ?_⟩
    · obtain ⟨hb', hc'⟩ := Bool.and_eq_true_iff.mp h
      rw [hb.1 hb', hc.1 hc', List.append_nil]
    · rcases Bool.or_eq_true_iff.mp h with h | h <;> obtain ⟨hb', hc'⟩ := Bool.and_eq_true_iff.mp h
      · rw [hb.1 hb', List.nil_append]
        exact hc.2 hc'
      · rw [hc.1 hc', List.append_nil]
        exact hb.2 hb'
  choice bs b hmem ns hb :=
    ⟨fun h => hb.1 (List.all_eq_true.mp h b hmem), fun h => hb.2 (List.all_eq_true.mp h b hmem)⟩
  once b ns hb := ⟨hb.1, nofun⟩
  again b xs ys hb hc := ⟨fun h => by rw [hb.1 h, hc.1 h, List.append_nil], nofun⟩

/-! ## Reading nodes off a row -/

variable (d) in
/-- What may be left of a row after the nodes of a rule body, hidden rules opened up to a
depth. -/
def rests : Nat → Showing → Rule τ → List Node → List (List Node)
  | 0, _, _, _ => []
  | depth + 1, sh, rule, ns =>
    match rule with
    | .blank => [ns]
    | .token t =>
      match d.tokenOutline? sh t, ns with
      | none, ns => [ns]
      | some o, n :: rest =>
        if n.outline = o ∧ (d.literal? t).all (· == n.text) then [rest] else []
      | some _, [] => []
    | .ref name =>
      match d.refOutline? sh name, d.rules.lookup name, ns with
      | some o, _, n :: rest => if n.outline = o then [rest] else []
      | some _, _, [] => []
      | none, some body, ns => rests depth sh body ns
      | none, none, ns => [ns]
    | .seq [] => [ns]
    | .seq (part :: parts) => (rests depth sh part ns).flatMap (rests depth sh (.seq parts))
    | .choice parts => parts.flatMap fun part => rests depth sh part ns
    | .many1 body => (rests depth sh body ns).flatMap fun rest =>
        -- a body that yields nothing is not read again
        rest :: if rest.length < ns.length then rests depth sh (.many1 body) rest else []
    | .prec _ _ body => rests depth sh body ns
    | .dynamic _ body => rests depth sh body ns
    | .field name body => rests depth { sh with field := some name } body ns
    | .shown as body => rests depth { sh with shown := some as } body ns

/-- What is read off a row before a rest is yielded by the rule body. -/
theorem exists_yields_of_mem_rests {depth : Nat} {rule : Rule τ} {rest : List Node}
    (h : rest ∈ d.rests depth sh rule ns) : ∃ xs, d.Yields sh rule xs ∧ ns = xs ++ rest := by
  induction depth generalizing sh rule ns rest with
  | zero => simp [rests] at h
  | succ depth ih =>
    cases rule with
    | blank =>
      simp only [rests, List.mem_singleton] at h
      exact ⟨[], .blank, h.symm⟩
    | token t =>
      simp only [rests] at h
      split at h
      · rename_i hlook
        rw [List.mem_singleton] at h
        exact ⟨[], .hiddenToken hlook, h.symm⟩
      · rename_i o n rest' hlook
        split at h
        · rename_i hn
          rw [List.mem_singleton] at h
          refine ⟨[n], .token (by rw [hlook, hn.1]) ?_, by rw [h]; rfl⟩
          intro text htext
          have hmatch := hn.2
          rw [htext, Option.all_some, beq_iff_eq] at hmatch
          exact hmatch.symm
        · exact absurd h List.not_mem_nil
      · exact absurd h List.not_mem_nil
    | ref name =>
      simp only [rests] at h
      split at h
      · rename_i o _ n rest' hlook
        split at h
        · rename_i hn
          rw [List.mem_singleton] at h
          exact ⟨[n], .ref (by rw [hlook, hn]), by rw [h]; rfl⟩
        · exact absurd h List.not_mem_nil
      · exact absurd h List.not_mem_nil
      · rename_i body _ hlook hbody
        obtain ⟨xs, hxs, rfl⟩ := ih h
        exact ⟨xs, .hidden hlook hbody hxs, rfl⟩
      · rename_i hlook hbody
        rw [List.mem_singleton] at h
        exact ⟨[], .scanned hlook hbody, h.symm⟩
    | seq parts =>
      cases parts with
      | nil =>
        simp only [rests, List.mem_singleton] at h
        exact ⟨[], .nil, h.symm⟩
      | cons part parts =>
        simp only [rests, List.mem_flatMap] at h
        obtain ⟨middle, hmiddle, h⟩ := h
        obtain ⟨xs, hxs, rfl⟩ := ih hmiddle
        obtain ⟨ys, hys, rfl⟩ := ih h
        exact ⟨xs ++ ys, .cons hxs hys, by rw [List.append_assoc]⟩
    | choice parts =>
      simp only [rests, List.mem_flatMap] at h
      obtain ⟨part, hpart, h⟩ := h
      obtain ⟨xs, hxs, rfl⟩ := ih h
      exact ⟨xs, .choice hpart hxs, rfl⟩
    | many1 body =>
      simp only [rests, List.mem_flatMap, List.mem_cons] at h
      obtain ⟨middle, hmiddle, h⟩ := h
      obtain ⟨xs, hxs, rfl⟩ := ih hmiddle
      rcases h with rfl | h
      · exact ⟨xs, .one hxs, rfl⟩
      · split at h
        · obtain ⟨ys, hys, rfl⟩ := ih h
          exact ⟨xs ++ ys, .more hxs hys, by rw [List.append_assoc]⟩
        · exact absurd h List.not_mem_nil
    | prec level side body =>
      obtain ⟨xs, hxs, rfl⟩ := ih h
      exact ⟨xs, .prec hxs, rfl⟩
    | dynamic level body =>
      obtain ⟨xs, hxs, rfl⟩ := ih h
      exact ⟨xs, .dynamic hxs, rfl⟩
    | field name body =>
      obtain ⟨xs, hxs, rfl⟩ := ih h
      exact ⟨xs, .field hxs, rfl⟩
    | shown as body =>
      obtain ⟨xs, hxs, rfl⟩ := ih h
      exact ⟨xs, .shown hxs, rfl⟩

theorem yields_of_nil_mem_rests {depth : Nat} {rule : Rule τ} (h : [] ∈ d.rests depth sh rule ns) :
    d.Yields sh rule ns := by
  obtain ⟨xs, hxs, rfl⟩ := exists_yields_of_mem_rests h
  rwa [List.append_nil]

end CodeAtlas.Grammar.Definition

namespace CodeAtlas.Grammar

open CodeAtlas.Syntax

/-! ## Rules that have a kind for themselves -/

mutual

/-- The kinds under which a rule body shows nodes of other rules. -/
def Rule.aliases {τ : Type} : Rule τ → List String
  | .blank => []
  | .ref _ => []
  | .token _ => []
  | .seq parts => aliasesOfAll parts
  | .choice parts => aliasesOfAll parts
  | .many1 body => body.aliases
  | .prec _ _ body => body.aliases
  | .dynamic _ body => body.aliases
  | .field _ body => body.aliases
  | .shown as body => as.kind :: body.aliases

/-- The kinds under which several bodies show nodes of other rules. -/
def Rule.aliasesOfAll {τ : Type} : List (Rule τ) → List String
  | [] => []
  | part :: rest => part.aliases ++ aliasesOfAll rest

end

namespace Definition

variable {τ : Type} [BEq τ] (d : Definition τ)

/-- The kinds under which nodes of other rules are shown. -/
def aliases : List String := d.shownAs.map (·.2.kind) ++ d.rules.flatMap (·.2.aliases)

/-- The body of the one rule whose nodes have a kind; `none` for tokens and for kinds that
several rules share. -/
def ownBody? (kind : String) : Option (Rule τ) :=
  if d.aliases.contains kind then none
  else (d.rules.lookup kind).filter fun body => (d.namedToken? (kind, body)).isNone

/-- Whether all parts of the nodes of a kind look in some way. -/
def everyPart (kind : String) (p : Outline → Bool) : Bool :=
  (d.ownBody? kind).any (d.read (everyNode p) 32 {})

/-- Whether some part of each node of a kind looks in some way. -/
def somePart (kind : String) (p : Outline → Bool) : Bool :=
  (d.ownBody? kind).any (d.read (someNode p) 32 {})

end Definition

end CodeAtlas.Grammar
