import CodeAtlas.Grammar.Item
import Std.Data.HashMap

/-!
# The automaton of a language

The states of a canonical LR(1) automaton, made when they are first entered. A state is given by its
kernel : the items it was entered with, each with the tokens that may follow it. Two actions for one token
are settled by precedence and side where these decide, and are both kept otherwise.

State 0 is the recovery state, in which every token is taken and nothing is built. State 1 is the start.
-/

namespace CodeAtlas.Grammar

/-- What a state does on a token. -/
inductive Action where
  /-- Push the token. A shift that only continues a repetition yields to the reduction beside it. -/
  | shift (continues : Bool)
  /-- Push a token that may stand anywhere, staying in the state. -/
  | shiftExtra
  /-- Replace the last `count` subtrees by a node of a production. -/
  | reduce (symbol count : Nat) (dynamic : Int) (production : Nat)
  /-- The text is complete. -/
  | accept
  /-- Take the token into an error. -/
  | recover
  deriving DecidableEq, Inhabited, Repr

/-- The items with which a state is entered, in the order of their numbers. -/
abbrev Kernel := Array (Nat × TokenSet)

/-- A state with its actions and the kernels of the states it leads to. -/
structure State where
  /-- The actions on each token. -/
  actions : Array (List Action)
  /-- The tokens with an action. -/
  valid : TokenSet
  /-- The tokens that are looked for in the text. -/
  lexical : TokenSet
  /-- The kernel that is entered with each symbol; empty if there is none. -/
  successors : Array Kernel
  /-- The symbol of a state in which nothing is done but to wrap one child in a hidden node. -/
  wraps : Option Nat
  deriving Inhabited

/-- The states made so far. -/
structure Automaton where
  states : Array State
  /-- The state of each kernel. -/
  ofKernel : Std.HashMap Kernel Nat
  /-- The transitions taken so far, by `state * symbols + symbol`. -/
  transitions : Std.HashMap Nat Nat
  deriving Inhabited

namespace Language

/-! ## Closure -/

/-- The lookaheads of each item of a state, and the items in order of discovery. -/
structure Closure where
  lookaheads : Array TokenSet
  found : Array Nat

/-- Add tokens to an item. -/
@[inline] def Closure.add (c : Closure) (item : Nat) (tokens : TokenSet) : Closure :=
  let known := c.lookaheads.getD item 0
  { lookaheads := c.lookaheads.setIfInBounds item (known ||| tokens)
    found := if known == 0 then c.found.push item else c.found }

/-- For each rule symbol that comes next in a kernel, the tokens that follow it there. -/
def following (l : Language) (kernel : Kernel) : List (Nat × TokenSet) :=
  kernel.foldl
    (fun acc (i, lookaheads) =>
      let item := l.items.getD i default
      match item.next with
      | none => acc
      | some s =>
        if s < l.tokenCount then acc
        else
          let tokens := item.after.getD lookaheads
          match acc.lookup s with
          | none => (s, tokens) :: acc
          | some known => (s, known ||| tokens) :: acc.filter (·.1 != s))
    []

/-- All items of a state with their lookaheads. -/
def closure (l : Language) (kernel : Kernel) : Closure :=
  let start : Closure := ⟨Array.replicate l.items.size 0, #[]⟩
  let entered := kernel.foldl (fun c (i, tokens) => c.add i tokens) start
  (l.following kernel).foldl
    (fun c (s, tokens) =>
      (l.expansions.getD (s - l.tokenCount) #[]).foldl
        (fun c e => c.add e.item (if e.inherits then e.lookaheads ||| tokens else e.lookaheads)) c)
    entered

/-! ## Actions -/

/-- What is known of the reductions on a token when a shift competes with them. -/
structure Reductions where
  items : List Nat := []
  precedence : Int := 0
  left : Bool := false
  right : Bool := false
  plain : Bool := false

/-- Take another complete item into account : a higher precedence replaces, an equal one stays beside. -/
def Reductions.add (l : Language) (r : Reductions) (i : Nat) : Reductions :=
  let item := l.items.getD i default
  let mark (r : Reductions) : Reductions :=
    match item.side with
    | some .left => { r with left := true }
    | some .right => { r with right := true }
    | none => { r with plain := true }
  if r.items.isEmpty || r.precedence < item.precedence then
    mark { items := [i], precedence := item.precedence }
  else if r.precedence == item.precedence then
    mark { r with items := r.items ++ [i] }
  else r

/-- The action of a complete item. -/
def reduction (l : Language) (i : Nat) : Action :=
  let item := l.items.getD i default
  if i == (l.items.getD l.startItem default).advanced then .accept
  else
    .reduce item.lhs item.dot (l.productions.getD item.production default).dynamic item.production

/-- Settle a token that can be pushed and that also completes items. Precedence decides if all items that
would read on compare alike, then the side on which the completed items associate; a competition within
one repetition is left to the reduction; any other is left open. -/
def settle (l : Language) (kernel : Kernel) (token : Nat) (r : Reductions) : List Action :=
  let reading := kernel.toList.filterMap fun (i, _) =>
    let item := l.items.getD i default
    match item.next with
    | some s => if item.dot > 0 && (l.first.getD s 0).has token then some item else none
    | none => none
  let done := kernel.toList.filterMap fun (i, lookaheads) =>
    let item := l.items.getD i default
    if item.next.isNone && TokenSet.has lookaheads token then some item else none
  let reductions := r.items.map l.reduction
  let rules := (reading ++ done).map (·.lhs)
  match rules with
  | [] => reductions ++ [.shift false]
  | rule :: others =>
    if decide (l.auxiliary ≤ rule) && others.all (· == rule) then reductions ++ [.shift true]
    else
      let more := reading.any fun item => r.precedence < item.precedence
      let less := reading.any fun item => item.precedence < r.precedence
      if more && !less then [.shift false]
      else if less && !more then reductions
      else if more && less then reductions ++ [.shift false]
      else if r.left && !r.right && !r.plain then reductions
      else if r.right && !r.left && !r.plain then [.shift false]
      else reductions ++ [.shift false]

/-- The actions on one token, given the complete items in their order and whether it can be pushed. -/
def actionsOn (l : Language) (kernel : Kernel) (complete : List (Nat × TokenSet)) (token : Nat)
    (canShift : Bool) : List Action :=
  let r := complete.foldl
    (fun (r : Reductions) (i, lookaheads) =>
      if TokenSet.has lookaheads token then r.add l i else r) {}
  match r.items, canShift with
  | [], true => [.shift false]
  | [], false => if l.extras.has token then [.shiftExtra] else []
  | items, false => items.map l.reduction
  | _, true => l.settle kernel token r

/-- The symbol of a state that only wraps. -/
def wraps (l : Language) (actions : Array (List Action)) : Option Nat :=
  let plain (production : Nat) : Bool :=
    (l.productions.getD production default).steps.all fun s => s.shown.isNone && s.field.isNone
  let step (acc : Option (Option Nat)) (action : Action) : Option (Option Nat) :=
    acc.bind fun seen =>
      match action with
      | .shiftExtra => some seen
      | .reduce symbol 1 0 production =>
        if l.transparent.getD symbol false && plain production && (seen.isNone || seen == some symbol)
        then some (some symbol) else none
      | _ => none
  (actions.foldl (fun acc as => as.foldl step acc) (some none)).join

/-- Put an item into a kernel, keeping the order of numbers. -/
def insertItem (item : Nat) (tokens : TokenSet) : List (Nat × TokenSet) → List (Nat × TokenSet)
  | [] => [(item, tokens)]
  | (i, known) :: rest =>
    if item < i then (item, tokens) :: (i, known) :: rest
    else if item == i then (i, known ||| tokens) :: rest
    else (i, known) :: insertItem item tokens rest

/-- The state of a kernel. -/
def makeState (l : Language) (kernel : Kernel) : State :=
  let c := l.closure kernel
  let empty : Array (List (Nat × TokenSet)) := Array.replicate (l.symbols.size + 1) []
  let successors := c.found.foldl
    (fun (acc : Array (List (Nat × TokenSet))) i =>
      let item := l.items.getD i default
      match item.next with
      | none => acc
      | some s => acc.modify s (insertItem item.advanced (c.lookaheads.getD i 0)))
    empty
  let complete := c.found.toList.filterMap fun i =>
    let item := l.items.getD i default
    if item.next.isNone then some (item.rank, i, c.lookaheads.getD i 0) else none
  let complete := (complete.mergeSort fun a b => a.1 ≤ b.1).map (·.2)
  let actions := ((List.range l.tokenCount).map fun t =>
    l.actionsOn kernel complete t !(successors.getD t []).isEmpty).toArray
  let valid := (List.range l.tokenCount).foldl
    (fun v t => if (actions.getD t []).isEmpty then v else v ||| TokenSet.single t) 0
  { actions
    valid
    lexical := l.modes.widen l.word valid
    successors := successors.map (·.toArray)
    wraps := l.wraps actions }

/-- The recovery state : tokens that may stand anywhere are kept as such, all others are taken as errors. -/
def recoveryState (l : Language) : State :=
  let actions := (List.range l.tokenCount).map fun t =>
    if l.extras.has t then [Action.shiftExtra]
    else if l.contextual.has t then []
    else [Action.recover]
  let valid := (List.range l.tokenCount).foldl
    (fun v t => if l.contextual.has t then v else v ||| TokenSet.single t) 0
  { actions := actions.toArray
    valid
    lexical := valid
    successors := Array.replicate (l.symbols.size + 1) #[]
    wraps := none }

/-- The automaton with its recovery state and its start. -/
def automaton (l : Language) : Automaton :=
  let kernel : Kernel := #[(l.startItem, TokenSet.single 0)]
  { states := #[l.recoveryState, l.makeState kernel]
    ofKernel := (∅ : Std.HashMap Kernel Nat).insert kernel 1
    transitions := ∅ }

end Language

namespace Automaton

/-- The state of a number. -/
@[inline] def state (a : Automaton) (n : Nat) : State := a.states.getD n default

/-- The actions of a state on a token. -/
@[inline] def actionsAt (a : Automaton) (n token : Nat) : List Action :=
  (a.state n).actions.getD token []

/-- The number of the state of a kernel, made if there is none yet. -/
def intern (l : Language) (kernel : Kernel) (a : Automaton) : Nat × Automaton :=
  match a.ofKernel[kernel]? with
  | some n => (n, a)
  | none =>
    let n := a.states.size
    (n, { a with states := a.states.push (l.makeState kernel), ofKernel := a.ofKernel.insert kernel n })

/-- The state entered from `n` with a symbol, before states that only wrap are passed over. -/
def enter? (l : Language) (n symbol : Nat) (a : Automaton) : Option Nat × Automaton :=
  let kernel := (a.state n).successors.getD symbol #[]
  if kernel.isEmpty then (none, a)
  else
    let (m, a) := a.intern l kernel
    (some m, a)

/-- Pass over states that only wrap, `fuel` of them at most. -/
def unwrap (l : Language) (n : Nat) : Nat → Nat → Automaton → Nat × Automaton
  | 0, m, a => (m, a)
  | fuel + 1, m, a =>
    match (a.state m).wraps with
    | none => (m, a)
    | some symbol =>
      match a.enter? l n symbol with
      | (none, a) => (m, a)
      | (some m, a) => unwrap l n fuel m a

/-- The state entered from `n` with a symbol. -/
def next? (l : Language) (n symbol : Nat) (a : Automaton) : Option Nat × Automaton :=
  let key := n * (l.symbols.size + 1) + symbol
  match a.transitions[key]? with
  | some m => (some m, a)
  | none =>
    match a.enter? l n symbol with
    | (none, a) => (none, a)
    | (some m, a) =>
      let (m, a) := unwrap l n 16 m a
      (some m, { a with transitions := a.transitions.insert key m })

end Automaton

end CodeAtlas.Grammar
