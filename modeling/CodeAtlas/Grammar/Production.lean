import CodeAtlas.Grammar.Rule

/-!
# Productions

Rule bodies are flattened into productions : lists of steps, one list for each way through the choices.
A repetition becomes an auxiliary symbol that is either two of itself or one of its body, shared between
all repetitions of the same body. Every step keeps the annotations that were in force where it stood.

Symbols are numbered : 0 is the end of the text, 1 the word token, then the other tokens in the order in
which the rules first use them, the scanner's tokens, the rules and the auxiliary symbols.
-/

namespace CodeAtlas.Grammar

/-- One symbol of a production with its annotations. -/
structure Step where
  symbol : Nat
  precedence : Option Int := none
  side : Option Side := none
  shown : Option Alias := none
  field : Option String := none
  deriving DecidableEq, Hashable, Repr

/-- One way through a rule body. -/
structure Alternative where
  steps : List Step
  dynamic : Int
  deriving DecidableEq, Hashable, Repr

/-- A rule symbol and one of its alternatives. -/
structure Production where
  lhs : Nat
  steps : List Step
  dynamic : Int
  deriving DecidableEq, Hashable, Repr, Inhabited

namespace Alternative

/-- The alternative of an empty body. -/
def empty : Alternative := ⟨[], 0⟩

/-- The dynamic precedence that is further from zero, the first of two equally far. -/
def stronger (a b : Int) : Int :=
  if b.natAbs > a.natAbs then b else a

/-- One alternative after another. -/
def append (a b : Alternative) : Alternative :=
  ⟨a.steps ++ b.steps, stronger a.dynamic b.dynamic⟩

/-- Every alternative of `as` followed by every one of `bs`. -/
def product (as bs : List Alternative) : List Alternative :=
  as.flatMap fun a => bs.map a.append

/-- Change the last step. -/
def mapLast (f : Step → Step) (a : Alternative) : Alternative :=
  match a.steps.reverse with
  | [] => a
  | last :: rest => { a with steps := (f last :: rest).reverse }

/-- The list without later copies of an element. -/
def distinct (as : List Alternative) : List Alternative :=
  (as.foldl (fun kept a => if kept.contains a then kept else a :: kept) []).reverse

end Alternative

/-- The annotations in force at a place of a rule body. -/
structure Context where
  precedence : Option Int := none
  side : Option Side := none
  shown : Option Alias := none
  field : Option String := none

/-- The step for a symbol at a place. -/
def Context.step (ctx : Context) (symbol : Nat) : Step :=
  ⟨symbol, ctx.precedence, ctx.side, ctx.shown, ctx.field⟩

/-- How names and tokens are numbered. -/
structure Numbering (τ : Type) where
  ofName : String → Nat
  ofToken : τ → Nat
  /-- The number of the first auxiliary symbol. -/
  auxiliary : Nat

/-- The bodies of the auxiliary symbols found so far, in order. -/
abbrev Repeats := Array (List Alternative)

/-- The auxiliary symbol of a repeated body, made if there is none yet. -/
def Repeats.intern (base : Nat) (body : List Alternative) (found : Repeats) : Nat × Repeats :=
  match found.findIdx? (· == body) with
  | some i => (base + i, found)
  | none => (base + found.size, found.push body)

section Flatten

variable {τ : Type} (number : Numbering τ)

mutual

/-- The alternatives of a rule body. An annotated body that does not stand at the end of its rule gives
its last step back to the annotations around it. -/
def alternatives (ctx : Context) (atEnd : Bool) : Rule τ → StateM Repeats (List Alternative)
  | .blank => pure [.empty]
  | .ref name => pure [⟨[ctx.step (number.ofName name)], 0⟩]
  | .token t => pure [⟨[ctx.step (number.ofToken t)], 0⟩]
  | .seq parts => alternativesOfSeq ctx atEnd parts [.empty]
  | .choice parts => alternativesOfChoice ctx atEnd parts
  | .many1 body => do
    let inner ← alternatives {} true body
    let symbol ← modifyGet (Repeats.intern number.auxiliary (Alternative.distinct inner))
    pure [⟨[ctx.step symbol], 0⟩]
  | .prec level side body => do
    let inner ← alternatives { ctx with precedence := some level, side := side <|> ctx.side } atEnd body
    if atEnd then pure inner
    else
      let restore (s : Step) : Step :=
        { s with precedence := ctx.precedence, side := if side.isSome then ctx.side else s.side }
      pure (inner.map (Alternative.mapLast restore))
  | .dynamic level body => do
    let inner ← alternatives ctx atEnd body
    pure (inner.map fun a => { a with dynamic := Alternative.stronger level a.dynamic })
  | .field name body => alternatives { ctx with field := some name } atEnd body
  | .shown as body => alternatives { ctx with shown := some as } atEnd body

/-- The alternatives of the parts of a sequence, after those of the parts before them. -/
def alternativesOfSeq (ctx : Context) (atEnd : Bool) :
    List (Rule τ) → List Alternative → StateM Repeats (List Alternative)
  | [], before => pure before
  | [part], before => do
    let here ← alternatives ctx atEnd part
    pure (Alternative.product before here)
  | part :: rest, before => do
    let here ← alternatives ctx false part
    alternativesOfSeq ctx atEnd rest (Alternative.product before here)

/-- The alternatives of all parts of a choice. -/
def alternativesOfChoice (ctx : Context) (atEnd : Bool) :
    List (Rule τ) → StateM Repeats (List Alternative)
  | [] => pure []
  | part :: rest => do
    let here ← alternatives ctx atEnd part
    let others ← alternativesOfChoice ctx atEnd rest
    pure (here ++ others)

end

end Flatten

/-! ## Inlining -/

/-- The steps of an alternative put in place of the step that referred to it : the outer alias and field
win, and the last step takes over a precedence and a side that it lacks. -/
def spliceSteps (outer : Step) (inner : List Step) : List Step :=
  let renamed := inner.map fun s =>
    { s with shown := outer.shown <|> s.shown, field := outer.field <|> s.field }
  match renamed.reverse with
  | [] => []
  | last :: rest =>
    ({ last with
        precedence := last.precedence <|> outer.precedence
        side := last.side <|> outer.side } :: rest).reverse

/-- The alternatives that result when every step with an inlined symbol is replaced. -/
def inlineSteps (body? : Nat → Option (List Alternative)) (dynamic : Int) :
    List Step → List Alternative
  | [] => [⟨[], dynamic⟩]
  | s :: rest =>
    let tails := inlineSteps body? dynamic rest
    match body? s.symbol with
    | none => tails.map fun t => { t with steps := s :: t.steps }
    | some inner =>
      inner.flatMap fun a => tails.map fun t =>
        ⟨spliceSteps s a.steps ++ t.steps, Alternative.stronger t.dynamic a.dynamic⟩

/-! ## Numbering a grammar -/

/-- What is known of a symbol. -/
structure SymbolInfo where
  /-- The kind of its nodes. -/
  kind : String
  visible : Bool
  named : Bool
  /-- Whether its nodes only classify others. -/
  isClass : Bool
  /-- Whether its nodes always appear under another kind than the rule's name. -/
  renamed : Bool
  deriving Repr, Inhabited

/-- A grammar after flattening. -/
structure Flat (τ : Type) where
  /-- The number of token symbols, the end of the text and the scanner's tokens included. -/
  tokenCount : Nat
  symbols : Array SymbolInfo
  /-- The tokens that a lexer matches, with their symbols. -/
  lexical : List (Nat × τ)
  productions : Array Production
  /-- Symbols at and above this one stand for repetitions. -/
  auxiliary : Nat
  start : Nat
  word : Nat
  extras : List Nat
  /-- The symbol of a name. -/
  ofName : String → Nat

namespace Definition

variable {τ : Type} [BEq τ]

/-- All tokens in order of first use, without repetitions. -/
def distinctTokens (d : Definition τ) : List τ :=
  let all := d.rules.flatMap fun r => r.2.tokens
  (all.foldl (fun (kept : List τ) t => if kept.contains t then kept else t :: kept) []).reverse

/-- The token that a rule names : its whole body, used nowhere else, and not in the start rule. -/
def namedToken? (d : Definition τ) (rule : String × Rule τ) : Option τ :=
  match rule.2 with
  | .token t =>
    if ((d.rules.flatMap fun r => r.2.tokens).filter (· == t)).length == 1 then some t else none
  | _ => none

/-- Number the symbols of a grammar and flatten its rules. -/
def flatten (d : Definition τ) : Flat τ :=
  let tokenNames : List (String × τ) :=
    d.rules.filterMap fun r => (d.namedToken? r).map fun t => (r.1, t)
  let nameOf? (t : τ) : Option String := (tokenNames.find? (·.2 == t)).map (·.1)
  let isWord (t : τ) : Bool := nameOf? t == some d.word
  let tokens := d.distinctTokens.filter isWord ++ d.distinctTokens.filter (!isWord ·)
  let syntactic := d.rules.filter fun r => (d.namedToken? r).isNone
  let firstScanned := 1 + tokens.length
  let tokenCount := firstScanned + d.scanned.length
  let auxiliary := tokenCount + syntactic.length
  let ofToken (t : τ) : Nat := 1 + tokens.findIdx (· == t)
  let ofName (name : String) : Nat :=
    match tokenNames.find? (·.1 == name) with
    | some (_, t) => ofToken t
    | none =>
      match d.scanned.findIdx? (· == name) with
      | some i => firstScanned + i
      | none => tokenCount + syntactic.findIdx (·.1 == name)
  let number : Numbering τ := ⟨ofName, ofToken, auxiliary⟩
  let (bodies, repeats) :=
    (syntactic.mapM fun r => alternatives number {} true r.2 : StateM Repeats _).run #[]
  let bodies := bodies.map Alternative.distinct
  let inlined := d.inlined.map ofName
  let body? (symbol : Nat) : Option (List Alternative) :=
    if inlined.contains symbol then bodies[symbol - tokenCount]? else none
  let auxBodies := repeats.toList.mapIdx fun i body =>
    ⟨[{ symbol := auxiliary + i }, { symbol := auxiliary + i }], 0⟩ :: body
  let produce (lhs : Nat) (body : List Alternative) : List Production :=
    if inlined.contains lhs then []
    else (Alternative.distinct (body.flatMap fun a => inlineSteps body? a.dynamic a.steps)).map
      fun a => ⟨lhs, a.steps, a.dynamic⟩
  let productions := ((bodies ++ auxBodies).mapIdx fun i body => produce (tokenCount + i) body).flatten
  let tokenInfo (t : τ) : SymbolInfo :=
    match nameOf? t with
    | some name => ⟨name, !isHiddenName name, !isHiddenName name, false, false⟩
    | none => ⟨(d.literal? t).getD "", (d.literal? t).isSome, false, false, false⟩
  let ruleInfo (name : String) : SymbolInfo :=
    match d.shownAs.lookup name with
    | some as => ⟨as.kind, true, as.named, false, true⟩
    | none =>
      let isClass := d.classes.contains name
      let visible := !isHiddenName name && !isClass
      ⟨name, visible, visible, isClass, false⟩
  let scannedInfo (name : String) : SymbolInfo :=
    ⟨name, !isHiddenName name, !isHiddenName name, false, false⟩
  let symbols :=
    [⟨"end", false, false, false, false⟩] ++ tokens.map tokenInfo ++ d.scanned.map scannedInfo ++
      syntactic.map (fun r => ruleInfo r.1) ++
      repeats.toList.map fun _ => ⟨"", false, false, false, false⟩
  { tokenCount
    symbols := symbols.toArray
    lexical := tokens.map fun t => (ofToken t, t)
    productions := productions.toArray
    auxiliary
    start := tokenCount
    word := 1
    extras := d.extras.map ofName
    ofName }

end Definition

end CodeAtlas.Grammar
