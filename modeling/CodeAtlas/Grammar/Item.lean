import CodeAtlas.Grammar.Production
import Std.Data.HashMap

/-!
# Items and token sets

An item is a production with a dot. Items that agree on all that is still to come, and on the annotations
of what has been read, are the same item. A set of tokens is a number whose bit `t` says whether token `t`
is in it.

`Language` holds what the automaton needs of a grammar : its items, the tokens with which a symbol can
start, and for each rule symbol the items that a state gains when that symbol comes next.
-/

namespace CodeAtlas.Grammar

/-- A set of tokens, as a number with one bit for each. -/
abbrev TokenSet := Nat

namespace TokenSet

def single (t : Nat) : TokenSet := 1 <<< t

def has (s : TokenSet) (t : Nat) : Bool := Nat.testBit s t

def ofList (ts : List Nat) : TokenSet := ts.foldl (fun s t => s ||| single t) 0

end TokenSet

/-- What makes two dotted productions the same item. -/
structure ItemKey where
  lhs : Nat
  dynamic : Int
  precedence : Option Int
  side : Option Side
  /-- The annotations of the steps before the dot, with their symbols where those matter. -/
  before : List (Option Alias × Option String × Nat)
  rest : List Step
  deriving DecidableEq, Hashable

/-- A production with a dot. -/
structure Item where
  lhs : Nat
  /-- The number of steps before the dot. -/
  dot : Nat
  production : Nat
  /-- The symbol after the dot. -/
  next : Option Nat
  /-- The tokens that can follow that symbol, where the production itself says so. -/
  after : Option TokenSet
  /-- The item with the dot moved over the next symbol. -/
  advanced : Nat
  precedence : Int
  side : Option Side
  /-- Its place among the items : items that read less come first, then those of earlier rules. -/
  rank : Nat
  deriving Inhabited

/-- An item that a state gains when a symbol comes next. -/
structure Expansion where
  item : Nat
  /-- The tokens that can follow it whatever follows the symbol. -/
  lookaheads : TokenSet
  /-- Whether what follows the symbol can follow it too. -/
  inherits : Bool
  deriving Inhabited

/-- Which tokens are looked for together with those that a state can use. -/
structure Modes where
  /-- The groups of tokens. -/
  groups : List TokenSet
  /-- For a token, those that would not be found any more, or not as they are, were it looked for too. -/
  hidden : List (Nat × TokenSet)
  /-- Tokens that are found as words. -/
  words : TokenSet
  deriving Inhabited

namespace Modes

/-- Whether no token that is in one of two sets only hides a token of the other. -/
def compatible (m : Modes) (a b : TokenSet) : Bool :=
  m.hidden.all fun (t, others) =>
    match a.has t, b.has t with
    | true, false => b &&& others == 0
    | false, true => a &&& others == 0
    | _, _ => true

/-- The tokens to look for where `valid` are usable : the first group that is compatible with them. -/
def widen (m : Modes) (word : Nat) (valid : TokenSet) : TokenSet :=
  let plain :=
    if valid &&& m.words == 0 then valid
    else (valid ^^^ (valid &&& m.words)) ||| TokenSet.single word
  plain ||| (m.groups.find? (m.compatible plain)).getD 0

end Modes

/-- A grammar prepared for its automaton. -/
structure Language where
  tokenCount : Nat
  symbols : Array SymbolInfo
  productions : Array Production
  auxiliary : Nat
  items : Array Item
  /-- The tokens with which each symbol can start. -/
  first : Array TokenSet
  /-- The items that come with each rule symbol, by `symbol - tokenCount`. -/
  expansions : Array (Array Expansion)
  startItem : Nat
  word : Nat
  extras : TokenSet
  /-- Tokens that only the grammar can ask for : recovery never looks for them. -/
  contextual : TokenSet
  /-- Hidden symbols whose nodes need not be built when they have one child. -/
  transparent : Array Bool
  modes : Modes
  deriving Inhabited

/-! ## Sets of first tokens -/

/-- One round : every symbol can start with what its productions' first symbols start with. -/
def firstRound (productions : Array Production) (first : Array TokenSet) : Array TokenSet :=
  productions.foldl
    (fun first p =>
      match p.steps with
      | [] => first
      | s :: _ => first.modify p.lhs (· ||| first.getD s.symbol 0))
    first

/-- Rounds until nothing changes, `fuel` at most. -/
def firstLoop (productions : Array Production) : Nat → Array TokenSet → Array TokenSet
  | 0, first => first
  | fuel + 1, first =>
    let next := firstRound productions first
    if next == first then first else firstLoop productions fuel next

/-- The tokens with which each symbol can start. -/
def firstSets (tokenCount symbolCount : Nat) (productions : Array Production) : Array TokenSet :=
  let base := (List.range symbolCount).map fun s => if s < tokenCount then TokenSet.single s else 0
  firstLoop productions symbolCount base.toArray

/-! ## Hidden symbols that carry fields -/

/-- One round : a hidden symbol carries fields if a step of it has one or is such a symbol itself. -/
def fieldRound (symbols : Array SymbolInfo) (productions : Array Production) (carries : Array Bool) :
    Array Bool :=
  productions.foldl
    (fun carries p =>
      let here := p.steps.any fun s =>
        s.field.isSome || (s.shown.isNone && carries.getD s.symbol false)
      if here && !(symbols.getD p.lhs default).visible then carries.setIfInBounds p.lhs true else carries)
    carries

/-- Rounds until nothing changes, `fuel` at most. -/
def fieldLoop (symbols : Array SymbolInfo) (productions : Array Production) :
    Nat → Array Bool → Array Bool
  | 0, carries => carries
  | fuel + 1, carries =>
    let next := fieldRound symbols productions carries
    if next == carries then carries else fieldLoop symbols productions fuel next

/-! ## Expansions -/

/-- What is known of a symbol that can stand first in the text of another. -/
structure Lead where
  reached : Bool := false
  lookaheads : TokenSet := 0
  inherits : Bool := false
  deriving Inhabited

/-- Follow the symbols with which productions start. `leads m` lists the rule symbols that start a
production of `m`, each with the tokens that then follow it, or `none` if what follows `m` does. -/
def leadLoop (leads : Nat → List (Nat × Option TokenSet)) :
    Nat → List (Nat × TokenSet × Bool) → Array Lead → Array Lead
  | 0, _, found => found
  | _, [], found => found
  | fuel + 1, (m, lookaheads, inherits) :: todo, found =>
    let known := found.getD m default
    let next : Lead := ⟨true, known.lookaheads ||| lookaheads, known.inherits || inherits⟩
    if known.reached && next.lookaheads == known.lookaheads && next.inherits == known.inherits then
      leadLoop leads fuel todo found
    else
      let more := (leads m).map fun (n, follow) =>
        match follow with
        | none => (n, lookaheads, inherits)
        | some tokens => (n, tokens, false)
      leadLoop leads fuel (more ++ todo) (found.setIfInBounds m next)

/-- Add tokens to the entry of a symbol in an association list. -/
def addLead (symbol : Nat) (tokens : TokenSet) :
    List (Nat × Option TokenSet) → List (Nat × Option TokenSet)
  | [] => [(symbol, some tokens)]
  | (n, some known) :: rest =>
    if n == symbol then (n, some (known ||| tokens)) :: rest
    else (n, some known) :: addLead symbol tokens rest
  | entry :: rest => entry :: addLead symbol tokens rest

/-! ## Preparing a grammar -/

/-- The order of two productions read to the end. -/
def Production.before (a b : Production) : Bool :=
  let level (p : Production) := (p.steps.getLast?.bind (·.precedence)).getD (-1000)
  let side (p : Production) : Nat :=
    match p.steps.getLast?.bind (·.side) with
    | none => 0
    | some .left => 1
    | some .right => 2
  let key (p : Production) : List Int :=
    [p.steps.length, p.lhs, p.dynamic, p.steps.length, level p, side p]
  decide (key a < key b)

/-- The key of a production with its dot after `dot` steps. -/
def itemKey (carries : Array Bool) (p : Production) (dot : Nat) : ItemKey :=
  let read := p.steps.take dot
  let marked := read.any fun s => carries.getD s.symbol false
  { lhs := p.lhs
    dynamic := p.dynamic
    precedence := read.getLast?.bind (·.precedence)
    side := read.getLast?.bind (·.side)
    before := read.map fun s => (s.shown, s.field, if marked then s.symbol else 0)
    rest := p.steps.drop dot }

/-- Number the items of all productions : the item of each production and dot, and for each item the first
production and dot that show it. -/
def numberItems (carries : Array Bool) (productions : Array Production) :
    Array (Array Nat) × Array (Nat × Nat) :=
  let step (acc : Array (Array Nat) × Array (Nat × Nat) × Std.HashMap ItemKey Nat) (p : Nat) :=
    let production := productions.getD p default
    let dots := List.range (production.steps.length + 1)
    let (row, seen, ids) := dots.foldl
      (fun (row, seen, ids) dot =>
        let key := itemKey carries production dot
        match (ids : Std.HashMap ItemKey Nat)[key]? with
        | some id => ((row : Array Nat).push id, (seen : Array (Nat × Nat)), ids)
        | none => (row.push seen.size, seen.push (p, dot), ids.insert key seen.size))
      ((#[] : Array Nat), acc.2.1, acc.2.2)
    (acc.1.push row, seen, ids)
  let (rows, seen, _) :=
    (List.range productions.size).foldl step (#[], #[], (∅ : Std.HashMap ItemKey Nat))
  (rows, seen)

/-- Prepare a flattened grammar. -/
def Flat.prepare {τ : Type} (g : Flat τ) (contextual : List Nat) (modes : Modes) : Language :=
  let symbolCount := g.symbols.size
  -- The start production comes last; its symbol is one past the others.
  let productions := g.productions.push ⟨symbolCount, [{ symbol := g.start }], 0⟩
  let first := firstSets g.tokenCount (symbolCount + 1) productions
  let carries := fieldLoop g.symbols productions symbolCount (Array.replicate (symbolCount + 1) false)
  let (rows, seen) := numberItems carries productions
  let order := (List.range productions.size).mergeSort fun a b =>
    !(productions.getD b default).before (productions.getD a default)
  let ranks := order.zipIdx.foldl (fun (ranks : Array Nat) (p, i) => ranks.setIfInBounds p i)
    (Array.replicate productions.size 0)
  let items := seen.map fun (p, dot) =>
    let production := productions.getD p default
    let last := (production.steps.take dot).getLast?
    let coming := production.steps.drop dot
    { lhs := production.lhs
      dot
      production := p
      next := coming.head?.map (·.symbol)
      after := (coming.drop 1).head?.map fun s => first.getD s.symbol 0
      advanced := (rows.getD p #[]).getD (dot + 1) 0
      precedence := (last.bind (·.precedence)).getD 0
      side := last.bind (·.side)
      rank := ranks.getD p 0 : Item }
  let ofSymbol : Array (List Nat) :=
    (List.range productions.size).foldl
      (fun (acc : Array (List Nat)) p =>
        acc.modify ((productions.getD p default).lhs) (p :: ·))
      (Array.replicate (symbolCount + 1) [])
  let leads : Array (List (Nat × Option TokenSet)) :=
    ofSymbol.map fun ps =>
      ps.foldl
        (fun found p =>
          match (productions.getD p default).steps with
          | [] => found
          | [s] =>
            if s.symbol < g.tokenCount || found.contains (s.symbol, none) then found
            else (s.symbol, none) :: found
          | s :: t :: _ =>
            if s.symbol < g.tokenCount then found
            else addLead s.symbol (first.getD t.symbol 0) found)
        []
  let expansions := (List.range (symbolCount - g.tokenCount)).map fun i =>
    let found := leadLoop (fun m => leads.getD m []) (64 * symbolCount)
      [(g.tokenCount + i, 0, true)] (Array.replicate (symbolCount + 1) {})
    let entries := (List.range symbolCount).flatMap fun m =>
      let lead := found.getD m {}
      if lead.reached then
        (ofSymbol.getD m []).map fun p =>
          (⟨(rows.getD p #[]).getD 0 0, lead.lookaheads, lead.inherits⟩ : Expansion)
      else []
    -- Two productions can share an item at the start; it is listed once.
    let merged := entries.foldl
      (fun (acc : Array Expansion × Std.HashMap Nat Nat) e =>
        match acc.2[e.item]? with
        | some i => (acc.1.modify i fun k =>
            ⟨k.item, k.lookaheads ||| e.lookaheads, k.inherits || e.inherits⟩, acc.2)
        | none => (acc.1.push e, acc.2.insert e.item acc.1.size))
      (#[], ∅)
    merged.1
  let renamed := productions.foldl
    (fun (acc : Array Bool) p => p.steps.foldl
      (fun acc s => if s.shown.isSome then acc.setIfInBounds s.symbol true else acc) acc)
    (Array.replicate (symbolCount + 1) false)
  let transparent := (List.range symbolCount).map fun s =>
    let info := g.symbols.getD s default
    decide (g.tokenCount ≤ s) && !info.visible && !info.isClass && !info.renamed &&
      !renamed.getD s false
  { tokenCount := g.tokenCount
    symbols := g.symbols
    productions
    auxiliary := g.auxiliary
    items
    first
    expansions := expansions.toArray
    startItem := (rows.getD (productions.size - 1) #[]).getD 0 0
    word := g.word
    extras := TokenSet.ofList g.extras
    contextual := TokenSet.ofList contextual
    transparent := transparent.toArray
    modes }

end CodeAtlas.Grammar
