import CodeAtlas.Syntax.Stack

/-!
# The parsing machine

The machine reads a text token by token along all versions of its stack, and builds the subtrees that the
grammar's productions ask for. Where no version can use the next token it recovers : it puts in a token that
is missing, goes back to an earlier state in which the token fits, or takes the token into an error. The
reading that costs least in errors is the result.
-/

namespace CodeAtlas.Syntax

open CodeAtlas.Grammar CodeAtlas.Text

/-- A token as a scanner or a lexer finds it. -/
structure Found where
  symbol : Nat
  start : Cursor
  stop : Cursor

/-- How the tokens of a language are found. `σ` is what the scanner remembers. -/
structure Tokenizer (σ : Type) where
  initial : σ
  /-- The scanner is asked first, with the tokens that can be used. -/
  scan : TokenSet → σ → Cursor → Option (Found × σ)
  /-- The lexer finds any other token. -/
  lex : TokenSet → Cursor → Option Found
  /-- Step over what may stand before any token. -/
  skipBlanks : Cursor → Cursor
  /-- The keyword that a word is. -/
  keyword? : Found → Option Nat

/-- The state of the machine. -/
structure Machine (σ : Type) where
  stack : Stack σ
  automaton : Automaton
  /-- The best complete reading so far. -/
  finished : Option (Subtree σ)
  accepted : Nat

/-! ## Limits -/

/-- The number of versions that are kept. -/
def maxVersions : Nat := 6

/-- How many more may exist for a moment. -/
def versionOverflow : Nat := 4

/-- How far down recovery looks for a state to go back to. -/
def maxLandmarkDepth : Nat := 16

/-- The cost that makes a version hopeless, scaled by the progress of the better one. -/
def maxCostDifference : Nat := 18 * skippedTreeCost

variable {σ : Type} [BEq σ] (l : Language) (tk : Tokenizer σ)

/-! ## Comparing versions -/

/-- How well a version does. -/
structure Standing where
  cost : Nat
  count : Nat
  dynamic : Int
  inError : Bool

/-- Which of two versions is better, and whether the other can be given up. -/
inductive Verdict where
  | takeLeft
  | preferLeft
  | neither
  | preferRight
  | takeRight
  deriving DecidableEq

/-- Compare two standings : no error before an error, then lower cost, then dynamic precedence. -/
def Standing.compare (a b : Standing) : Verdict :=
  if !a.inError && b.inError then (if a.cost < b.cost then .takeLeft else .preferLeft)
  else if a.inError && !b.inError then (if b.cost < a.cost then .takeRight else .preferRight)
  else if a.cost < b.cost then
    if (b.cost - a.cost) * (1 + a.count) > maxCostDifference then .takeLeft else .preferLeft
  else if b.cost < a.cost then
    if (a.cost - b.cost) * (1 + b.count) > maxCostDifference then .takeRight else .preferRight
  else if b.dynamic < a.dynamic then .preferLeft
  else if a.dynamic < b.dynamic then .preferRight
  else .neither

/-- The standing of a version. -/
def Stack.standing (s : Stack σ) (v : Nat) : Standing :=
  let paused := (s.paused? v).isSome
  { cost := s.errorCost v + (if paused then skippedTreeCost else 0)
    count := s.countSinceError v
    dynamic := (s.top v).dynamic
    inError := paused || s.state v == 0 }

namespace Machine

/-- The number of versions. -/
@[inline] def versions (m : Machine σ) : Nat := m.stack.heads.size

/-- Whether a version that would cost `cost` is clearly worse than another. -/
def betterExists (m : Machine σ) (v : Nat) (inError : Bool) (cost : Nat) : Bool :=
  let done := match m.finished with
    | some t => decide (t.errorCost ≤ cost)
    | none => false
  done ||
    (let own : Standing :=
      { cost, inError, dynamic := (m.stack.top v).dynamic, count := m.stack.countSinceError v }
     (List.range m.versions).any fun i =>
      i != v && m.stack.isActive i && decide (m.stack.position v ≤ m.stack.position i) &&
        (match own.compare (m.stack.standing i) with
          | .takeRight => true
          | .preferRight => m.stack.canMerge i v
          | _ => false))

/-! ## Transitions -/

/-- The state entered from `n` with a rule symbol; the recovery state if there is none. -/
def goto (n symbol : Nat) : StateM (Machine σ) Nat :=
  modifyGet fun ⟨stack, automaton, finished, accepted⟩ =>
    let (found, automaton) := automaton.next? l n symbol
    (found.getD 0, ⟨stack, automaton, finished, accepted⟩)

/-- The state entered from `n` with a token : the same one for a token that may stand anywhere. -/
def gotoToken (n token : Nat) : StateM (Machine σ) Nat := do
  let actions := (← get).automaton.actionsAt n token
  match actions.getLast? with
  | some (.shift _) => goto l n token
  | some .shiftExtra => pure n
  | _ => pure 0

/-- The symbol of a token; errors have none. -/
def tokenSymbol? (t : Subtree σ) : Option Nat :=
  match t.label with
  | .symbol n => some n
  | _ => none

/-- The actions of a state on a token. -/
def actionsFor (m : Machine σ) (n : Nat) (t : Subtree σ) : List Action :=
  match tokenSymbol? t with
  | some symbol => m.automaton.actionsAt n symbol
  | none => []

@[inline] def modifyStack (f : Stack σ → Stack σ) : StateM (Machine σ) Unit :=
  modify fun ⟨stack, automaton, finished, accepted⟩ => ⟨f stack, automaton, finished, accepted⟩

/-! ## Tokens -/

/-- A token found by the scanner. One that is empty and changes nothing is passed over where it could be
found again and again. -/
def scanToken (m : Machine σ) (v n : Nat) (recovering : Bool) (valid : TokenSet) (place : Cursor) :
    Option (Leaf σ) :=
  let before := (m.stack.head v).scanner
  match tk.scan valid (before.getD tk.initial) place with
  | none => none
  | some (found, after) =>
    let changed := !(before == some after)
    let empty := decide (found.stop.position.byte ≤ place.position.byte) && !changed
    let stays := match (m.automaton.actionsAt n found.symbol).getLast? with
      | some .shiftExtra => true
      | _ => false
    if empty && (recovering || !m.stack.hasAdvanced v || stays) then none
    else
      some
        { label := .symbol found.symbol, start := found.start, stop := found.stop, padding := 0
          extra := false, missing := false, keyword := false, scanned := some (after, changed) }

/-- A token found by the lexer. A word that is a keyword is that keyword where the state can use it. -/
def lexToken (m : Machine σ) (n : Nat) (valid : TokenSet) (place : Cursor) : Option (Leaf σ) :=
  match tk.lex valid place with
  | none => none
  | some found =>
    let keyword := if found.symbol == l.word then tk.keyword? found else none
    let symbol := match keyword with
      | some k => if (m.automaton.actionsAt n k).isEmpty then found.symbol else k
      | none => found.symbol
    some
      { label := .symbol symbol, start := found.start, stop := found.stop, padding := 0
        extra := symbol == 0, missing := false, keyword := keyword.isSome, scanned := none }

/-- A token that stands for characters that start no token. -/
def unreadable (first last : Cursor) : Leaf σ :=
  { label := .error, start := first, stop := last, padding := 0, extra := false, missing := false
    keyword := false, scanned := none }

/-- The next token of any kind. Characters that start no token are skipped up to the next one; `skipped`
is where they begin and where they end so far. -/
def recoverToken (m : Machine σ) (v n : Nat) (valid : TokenSet) :
    Nat → Option (Cursor × Cursor) → Cursor → Leaf σ
  | 0, _, place => unreadable place place
  | fuel + 1, skipped, place =>
    match scanToken tk m v n true valid place <|> lexToken l tk m n valid place with
    | some leaf =>
      match skipped with
      | none => leaf
      | some (first, last) => unreadable first last
    | none =>
      let here := tk.skipBlanks place
      let (first, last) := skipped.getD (here, here)
      if here.position.byte != last.position.byte then
        recoverToken m v n valid fuel (some (first, here)) here
      else if here.atEnd then unreadable first last
      else recoverToken m v n valid fuel (some (first, here.advance)) here.advance

/-- The next token for a version in state `n` : one that is looked for there, or else any. -/
def nextToken (m : Machine σ) (v n : Nat) : Subtree σ :=
  let place := (m.stack.top v).cursor
  let state := m.automaton.state n
  let usable :=
    if n == 0 then none
    else scanToken tk m v n false state.valid place <|> lexToken l tk m n state.lexical place
  let leaf := match usable with
    | some leaf => leaf
    | none =>
      recoverToken l tk m v n (m.automaton.state 0).valid (2 * place.rest.length + 2) none place
  .leaf { leaf with padding := leaf.start.position.byte - place.position.byte }

/-! ## Building nodes -/

/-- Push a token, and remember the scanner's state after it. -/
def shift (v n : Nat) (token : Subtree σ) (extra : Bool) : StateM (Machine σ) Unit :=
  modifyStack fun s =>
    let s := s.push l v (some (token.withExtra extra)) n
    match token.scanned? with
    | some (after, _) => s.modifyHead v fun h => { h with scanner := some after }
    | none => s

/-- Merge version `w` into the first of the versions `j, j + 1, …` below it that it fits, leaving out `v`. -/
def mergeBelow (v w : Nat) : Nat → Nat → StateM (Machine σ) Bool
  | 0, _ => pure false
  | fuel + 1, j => do
    if j ≥ w then pure false
    else if j == v then mergeBelow v w fuel (j + 1)
    else
      let merged ← modifyGet fun m =>
        let ⟨stack, automaton, finished, accepted⟩ := m
        let (merged, stack) := stack.merge l j w
        (merged, ⟨stack, automaton, finished, accepted⟩)
      if merged then pure true else mergeBelow v w fuel (j + 1)

/-- Of several lists of children for the same node, the best with the node over it. -/
def bestChildren (symbol production : Nat) (place : Cursor) :
    List (Slice σ) → Subtree σ × List (Subtree σ) → Subtree σ × List (Subtree σ)
  | [], best => best
  | slice :: rest, (parent, extras) =>
    let (children, others) := Subtree.splitExtras slice.subtrees
    let rival := Subtree.make l (.symbol symbol) (some production) place children
    bestChildren symbol production place rest
      (if parent.prefersSecond rival then (rival, others) else (parent, extras))

/-- Put a node over the subtrees of each slice and push it, with the extras that followed them. -/
def pushNodes (v symbol : Nat) (dynamic : Int) (production : Nat) :
    Nat → List (Slice σ) → Nat → StateM (Machine σ) Unit
  | 0, _, _ => pure ()
  | _, [], _ => pure ()
  | fuel + 1, slice :: rest, removed => do
    let w := slice.version - removed
    let same := rest.takeWhile fun r => r.version == slice.version
    let others := rest.dropWhile fun r => r.version == slice.version
    if w > maxVersions + versionOverflow then
      modifyStack fun s => s.remove w
      pushNodes v symbol dynamic production fuel others (removed + 1)
    else
      let place := ((← get).stack.top w).cursor
      let (children, extras) := Subtree.splitExtras slice.subtrees
      let parent := Subtree.make l (.symbol symbol) (some production) place children
      let (parent, extras) := bestChildren l symbol production place same (parent, extras)
      let n := (← get).stack.state w
      let next ← goto l n symbol
      modifyStack fun s =>
        let s := s.push l w (some (parent.addDynamic dynamic)) next
        extras.foldl (fun s t => s.push l w (some t) next) s
      let merged ← mergeBelow l v w w 0
      pushNodes v symbol dynamic production fuel others (if merged then removed + 1 else removed)

/-- Reduce a version by a production. The first version that this makes is returned. -/
def reduce (v symbol count : Nat) (dynamic : Int) (production : Nat) :
    StateM (Machine σ) (Option Nat) := do
  let slices ← modifyGet fun m =>
    let ⟨stack, automaton, finished, accepted⟩ := m
    let (slices, stack) := stack.popCount v count
    (slices, ⟨stack, automaton, finished, accepted⟩)
  pushNodes l v symbol dynamic production (slices.size + 1) slices.toList 0
  match slices[0]? with
  | none => pure none
  | some slice => pure (if (← get).versions > slice.version then some slice.version else none)

/-- The root over all subtrees of a complete reading : the last that is no extra, opened up. -/
def rootOver (subtrees : List (Subtree σ)) : Option (Subtree σ) :=
  let back := subtrees.reverse
  let trailing := back.takeWhile Subtree.extra
  match back.dropWhile Subtree.extra with
  | [] => none
  | tree :: below =>
    let production := match tree with
      | .node s _ => s.production
      | .leaf _ => none
    let all := below.reverse ++ tree.children ++ trailing.reverse
    some (Subtree.make l tree.label production tree.start all)

/-- The text is complete along a version. -/
def accept (v : Nat) (token : Subtree σ) : StateM (Machine σ) Unit := do
  modifyStack fun s => s.push l v (some token) 1
  let slices ← modifyGet fun m =>
    let ⟨stack, automaton, finished, accepted⟩ := m
    let (slices, stack) := stack.popAll v
    (slices, ⟨stack, automaton, finished, accepted⟩)
  for slice in slices do
    match rootOver l slice.subtrees with
    | none => pure ()
    | some root =>
      modify fun m =>
        let finished := match m.finished with
          | none => root
          | some best => if best.prefersSecond root then root else best
        { m with finished := some finished, accepted := m.accepted + 1 }
  modifyStack fun s =>
    let s := match slices[0]? with
      | some slice => s.remove slice.version
      | none => s
    s.halt v

/-! ## Recovery -/

/-- The reductions of a state, each symbol and count once, on one token or on all; and whether a token can
be pushed. -/
def possible (m : Machine σ) (n : Nat) (token? : Option Nat) :
    List (Nat × Nat × Int × Nat) × Bool :=
  let tokens := match token? with
    | some t => [t]
    | none => (List.range (l.tokenCount - 1)).map (· + 1)
  tokens.foldl
    (fun acc t => (m.automaton.actionsAt n t).foldl
      (fun (reductions, shifts) action =>
        match action with
        | .shift false => (reductions, true)
        | .recover => (reductions, true)
        | .reduce symbol count dynamic production =>
          if count == 0 || reductions.any fun r => r.1 == symbol && r.2.1 == count then (reductions, shifts)
          else (reductions ++ [(symbol, count, dynamic, production)], shifts)
        | _ => (reductions, shifts))
      acc)
    ([], false)

/-- Merge version `v` into one of the versions from `first` on that come before it. -/
def mergeInto (v : Nat) : Nat → Nat → StateM (Machine σ) Bool
  | 0, _ => pure false
  | fuel + 1, j => do
    if j ≥ v then pure false
    else
      let merged ← modifyGet fun m =>
        let ⟨stack, automaton, finished, accepted⟩ := m
        let (merged, stack) := stack.merge l j v
        (merged, ⟨stack, automaton, finished, accepted⟩)
      if merged then pure true else mergeInto v fuel (j + 1)

/-- Make every reduction that a version can make, whatever the next token is, or with a given one. Says
whether that token can then be pushed. -/
def reduceAllLoop (start first : Nat) (token? : Option Nat) :
    Nat → Nat → Nat → Bool → StateM (Machine σ) Bool
  | 0, _, _, shifts => pure shifts
  | fuel + 1, v, round, shifts => do
    let count := (← get).versions
    if v ≥ count then pure shifts
    else if ← mergeInto l v v first then reduceAllLoop start first token? fuel v (round + 1) shifts
    else
      let m ← get
      let (reductions, canShift) := possible l m (m.stack.state v) token?
      let mut made : Option Nat := none
      for (symbol, children, dynamic, production) in reductions do
        made ← reduce l v symbol children dynamic production
      let next := if v == start then count else v + 1
      if canShift then reduceAllLoop start first token? fuel next (round + 1) true
      else
        match made with
        | some w =>
          if round < maxVersions then
            modifyStack fun s => s.renumber w v
            reduceAllLoop start first token? fuel v (round + 1) shifts
          else
            if token?.isSome then modifyStack fun s => s.remove v
            reduceAllLoop start first token? fuel next (round + 1) shifts
        | none =>
          if token?.isSome then modifyStack fun s => s.remove v
          reduceAllLoop start first token? fuel next (round + 1) shifts

/-- Make all reductions from a version. -/
def reduceAll (v : Nat) (token? : Option Nat) : StateM (Machine σ) Bool := do
  reduceAllLoop l v (← get).versions token? 1000 v 0 false

/-- Go back to an earlier state, all above it taken into an error. -/
def returnTo (v depth goal : Nat) : StateM (Machine σ) Bool := do
  let slices ← modifyGet fun m =>
    let ⟨stack, automaton, finished, accepted⟩ := m
    let (slices, stack) := stack.popCount v depth
    (slices, ⟨stack, automaton, finished, accepted⟩)
  let mut previous : Option Nat := none
  for slice in slices do
    let w := slice.version
    if previous == some w then pure ()
    else if (← get).stack.state w != goal then modifyStack fun s => s.halt w
    else
      let earlier ← modifyGet fun m =>
        let ⟨stack, automaton, finished, accepted⟩ := m
        let (earlier, stack) := stack.popError w
        (earlier, ⟨stack, automaton, finished, accepted⟩)
      let all := (earlier.map Subtree.children).getD [] ++ slice.subtrees
      let (covered, extras) := Subtree.splitExtras all
      modifyStack fun s =>
        let s :=
          if covered.isEmpty then s
          else
            let error := (Subtree.make l .error none (s.top w).cursor covered).withExtra true
            s.push l w (some error) goal
        extras.foldl (fun s t => s.push l w (some t) goal) s
      previous := some w
  pure previous.isSome

/-- Go back to the nearest of the remembered states that can use the token, unless that costs too much. -/
def tryLandmarks (v : Nat) (token : Subtree σ) (cost count versions : Nat) (place : Position) :
    List Landmark → StateM (Machine σ) Bool
  | [] => pure false
  | mark :: rest => do
    let m ← get
    let depth := if count > 0 then mark.depth + 1 else mark.depth
    let wouldMerge := (List.range versions).any fun j =>
      m.stack.state j == mark.state && m.stack.position j == place.byte
    if mark.state == 0 || mark.cursor.position.byte == place.byte || wouldMerge then
      tryLandmarks v token cost count versions place rest
    else
      let newCost := cost + mark.depth * skippedTreeCost +
        (place.byte - mark.cursor.position.byte) * skippedByteCost +
        (place.row - mark.cursor.position.row) * skippedLineCost
      if m.betterExists v false newCost then pure false
      else if (actionsFor m mark.state token).isEmpty then
        tryLandmarks v token cost count versions place rest
      else if ← returnTo l v depth mark.state then pure true
      else tryLandmarks v token cost count versions place rest

/-- Remove the versions from `first` on that were given up. -/
def removeHalted : Nat → Nat → Stack σ → Stack σ
  | 0, _, s => s
  | fuel + 1, i, s =>
    if i ≥ s.heads.size then s
    else if s.isActive i then removeHalted fuel (i + 1) s
    else removeHalted fuel i (s.remove i)

/-- Recover with a token : go back to a state in which it fits, and also take it into the error. -/
def recover (v : Nat) (token : Subtree σ) : StateM (Machine σ) Unit := do
  modifyStack fun s => s.clamp v
  let m ← get
  let versions := m.versions
  let place := (m.stack.top v).cursor.position
  let count := m.stack.countSinceError v
  let cost := m.stack.errorCost v
  let recovered ← match (m.stack.head v).landmarks with
    | some marks =>
      if token.isError then pure false else tryLandmarks l v token cost count versions place marks
    | none => pure false
  modifyStack fun s => removeHalted (s.heads.size + 1) versions s
  let changes := match token.scanned? with
    | some (_, changed) => changed
    | none => false
  if recovered && ((← get).versions > maxVersions || changes) then
    modifyStack fun s => s.halt v
  else if token.label == .symbol 0 then
    let error := Subtree.make l .error none ((← get).stack.top v).cursor []
    modifyStack fun s => s.push l v (some error) 1
    accept l v token
  else
    let newCost := cost + skippedTreeCost + (token.padding + token.byteSize) * skippedByteCost +
      (token.stop.position.row - place.row) * skippedLineCost
    if (← get).betterExists v false newCost then modifyStack fun s => s.halt v
    else
      let isExtra := match (actionsFor (← get) 1 token).getLast? with
        | some .shiftExtra => true
        | _ => false
      let token := if isExtra then token.withExtra true else token
      let mut run := Subtree.make l .errorRun none token.start [token]
      if count > 0 then
        let slices ← modifyGet fun m =>
          let ⟨stack, automaton, finished, accepted⟩ := m
          let (slices, stack) := stack.popCount v 1
          (slices, ⟨stack, automaton, finished, accepted⟩)
        match slices[0]? with
        | none => pure ()
        | some slice =>
          modifyStack fun s =>
            let s := if slices.size > 1
              then { s with heads := s.heads.extract 0 (slice.version + 1) } else s
            s.renumber slice.version v
          run := Subtree.make l .errorRun none token.start (slice.subtrees ++ [run])
      modifyStack fun s =>
        let s := s.push l v (some run) 0
        match token.scanned? with
        | some (after, _) => s.modifyHead v fun h => { h with scanner := some after }
        | none => s

/-- Put in the first token that is missing : one after which the next token completes something. -/
def putMissing (v n : Nat) (token : Subtree σ) : List Nat → StateM (Machine σ) Bool
  | [] => pure false
  | missing :: rest => do
    let next ← gotoToken l n missing
    if next == 0 || next == n then putMissing v n token rest
    else
      let completes := match actionsFor (← get) next token with
        | .reduce .. :: _ => true
        | _ => false
      if !completes then putMissing v n token rest
      else
        let place := ((← get).stack.top v).cursor
        let leaf : Leaf σ :=
          { label := .symbol missing, start := place, stop := place, padding := 0, extra := false
            missing := true, keyword := false, scanned := none }
        let w ← modifyGet fun m =>
          let ⟨stack, automaton, finished, accepted⟩ := m
          let (w, stack) := stack.copy v
          (w, ⟨stack.push l w (some (.leaf leaf)) next, automaton, finished, accepted⟩)
        if ← reduceAll l w (tokenSymbol? token) then pure true else putMissing v n token rest

/-- Enter the recovery state along all versions from `v` on, after trying to put in what is missing. -/
def enterRecovery (v first last : Nat) (token : Subtree σ) :
    Nat → Nat → Bool → StateM (Machine σ) Unit
  | 0, _, _ => pure ()
  | fuel + 1, w, put => do
    if w ≥ last then pure ()
    else
      let n := (← get).stack.state w
      let tokens := (List.range (l.tokenCount - 1)).map (· + 1)
      let put ← if put then pure true else putMissing l w n token tokens
      modifyStack fun s => s.push l w none 0
      enterRecovery v first last token fuel (if w == v then first else w + 1) put

/-- A version cannot use a token : make all reductions, put in a missing token if one helps, and begin to
recover. -/
def handleError (v : Nat) (token : Subtree σ) : StateM (Machine σ) Unit := do
  let first := (← get).versions
  let _ ← reduceAll l v none
  let last := (← get).versions
  enterRecovery l v first last token (last + 2) v false
  for _ in [first:last] do
    modifyStack fun s => (s.merge l v first).2
  modifyStack fun s => s.recordLandmarks v maxLandmarkDepth
  recover l v token

/-! ## The main loop -/

/-- What the actions of a state came to. -/
inductive Outcome where
  /-- The token was used, or the version ended. -/
  | done
  /-- Only reductions were made; the last version that one of them made, if any. -/
  | reduced (any : Bool) (last : Option Nat)

/-- Carry out the actions of a state on a token. -/
def perform (v n : Nat) (token : Subtree σ) :
    List Action → Bool → Option Nat → StateM (Machine σ) Outcome
  | [], any, last => pure (.reduced any last)
  | .shift true :: rest, any, last => perform v n token rest any last
  | .shift false :: _, _, _ => do
    let next ← match tokenSymbol? token with
      | some symbol => goto l n symbol
      | none => pure 0
    shift l v next token false
    pure .done
  | .shiftExtra :: _, _, _ => do
    shift l v n token true
    pure .done
  | .reduce symbol count dynamic production :: rest, _, last => do
    let made ← reduce l v symbol count dynamic production
    perform v n token rest true (made <|> last)
  | .accept :: _, _, _ => do
    accept l v token
    pure .done
  | .recover :: _, _, _ => do
    recover l v token
    pure .done

/-- A keyword as the plain word that it also is. -/
def asWord? (token : Subtree σ) (wordFits : Bool) : Option (Subtree σ) :=
  match token with
  | .leaf leaf =>
    if wordFits && leaf.keyword && leaf.label != .symbol l.word
    then some (.leaf { leaf with label := .symbol l.word }) else none
  | .node _ _ => none

/-- Use a token along a version, making reductions until it is pushed or found not to fit. -/
def useToken (v : Nat) : Nat → Subtree σ → StateM (Machine σ) Unit
  | 0, _ => modifyStack fun s => s.halt v
  | fuel + 1, token => do
    let m ← get
    let n := m.stack.state v
    let actions := actionsFor m n token
    match ← perform l v n token actions false none with
    | .done => pure ()
    | .reduced _ (some w) =>
      modifyStack fun s => s.renumber w v
      useToken v fuel token
    | .reduced true none => modifyStack fun s => s.halt v
    | .reduced false none =>
      let wordFits := !((← get).automaton.actionsAt n l.word).isEmpty
      match asWord? l token wordFits with
      | some word => useToken v fuel word
      | none =>
        if n == 0 then recover l v token
        else modifyStack fun s => s.pause v token

/-- Move a version on by one token. -/
def advance (fuel v : Nat) : StateM (Machine σ) Unit := do
  let m ← get
  let token := nextToken l tk m v (m.stack.state v)
  useToken l v fuel token

/-- Move a version on until it has got past `last`, and return how far the furthest has got. -/
def advanceWhile (fuel : Nat) (v : Nat) : Nat → Nat → StateM (Machine σ) Nat
  | 0, last => pure last
  | rounds + 1, last => do
    if !(← get).stack.isActive v then pure last
    else
      advance l tk fuel v
      let place := (← get).stack.position v
      if place > last || (v > 0 && place == last) then pure place
      else advanceWhile fuel v rounds last

/-- Move all versions on. -/
def advanceAll (fuel : Nat) : Nat → Nat → Nat → StateM (Machine σ) Nat
  | 0, _, last => pure last
  | rounds + 1, v, last => do
    if v ≥ (← get).versions then pure last
    else
      let last ← advanceWhile l tk fuel v fuel last
      advanceAll fuel rounds (v + 1) last

/-- Compare version `i` with those before it : drop the worse, merge what can be merged, and put the more
promising first. Returns the place from which to go on. -/
def condenseOne (standing : Standing) : Nat → Nat → Nat → StateM (Machine σ) Nat
  | 0, i, _ => pure i
  | fuel + 1, i, j => do
    if j ≥ i then pure i
    else
      let mergeLeft : StateM (Machine σ) Bool := modifyGet fun m =>
        let ⟨stack, automaton, finished, accepted⟩ := m
        let (merged, stack) := stack.merge l j i
        (merged, ⟨stack, automaton, finished, accepted⟩)
      match ((← get).stack.standing j).compare standing with
      | .takeLeft =>
        modifyStack fun s => s.remove i
        pure (i - 1)
      | .preferLeft =>
        if ← mergeLeft then pure (i - 1) else condenseOne standing fuel i (j + 1)
      | .neither =>
        if ← mergeLeft then pure (i - 1) else condenseOne standing fuel i (j + 1)
      | .preferRight =>
        if ← mergeLeft then pure (i - 1)
        else
          modifyStack fun s => s.swap i j
          condenseOne standing fuel i (j + 1)
      | .takeRight =>
        modifyStack fun s => s.remove j
        condenseOne standing fuel (i - 1) j

/-- Compare all versions. Returns the least cost of a version that is not in an error. -/
def condenseAll : Nat → Nat → Option Nat → StateM (Machine σ) (Option Nat)
  | 0, _, least => pure least
  | fuel + 1, i, least => do
    let m ← get
    if i ≥ m.versions then pure least
    else if m.stack.isHalted i then
      modifyStack fun s => s.remove i
      condenseAll fuel i least
    else
      modifyStack fun s => s.clamp i
      let standing := (← get).stack.standing i
      let least :=
        if standing.inError then least
        else some (match least with
          | none => standing.cost
          | some c => min c standing.cost)
      let i ← condenseOne l standing 1000 i 0
      condenseAll fuel (i + 1) least

/-- Resume the first version if it is paused and remove the other paused ones. -/
def resumeLoop : Nat → Nat → Nat → Bool → Option Nat → StateM (Machine σ) (Option Nat)
  | 0, _, _, _, least => pure least
  | fuel + 1, i, count, going, least => do
    if i ≥ count then pure least
    else
      let m ← get
      match m.stack.paused? i with
      | none => resumeLoop fuel (i + 1) count true least
      | some token =>
        if !going && m.accepted < maxVersions then
          let cost := m.stack.errorCost i
          modifyStack fun s => s.resume i
          handleError l i token
          resumeLoop fuel (i + 1) count true (some cost)
        else
          modifyStack fun s => s.remove i
          resumeLoop fuel i (count - 1) going least

/-- Drop the versions that are not worth following. Returns the least cost of one that is. -/
def condense : StateM (Machine σ) (Option Nat) := do
  let least ← condenseAll l 1000 0 none
  modifyStack fun s => { s with heads := s.heads.extract 0 maxVersions }
  resumeLoop l 1000 0 (← get).versions false least

/-- Read on until no version is left or none can be better than the complete reading. -/
def run (fuel : Nat) : Nat → Nat → StateM (Machine σ) Unit
  | 0, _ => pure ()
  | rounds + 1, last => do
    let last ← advanceAll l tk fuel 1000 0 last
    let least ← condense l
    let m ← get
    let best := match m.finished, least with
      | some t, some cost => decide (t.errorCost < cost)
      | some _, none => true
      | none, _ => false
    if best || m.versions == 0 then pure () else run fuel rounds last

end Machine

/-- Parse a text. The result is the root of the best reading. -/
def parse (automaton : Automaton) (text : Cursor) : Option (Subtree σ) :=
  let fuel := 8 * text.rest.length + 4000
  let machine : Machine σ := ⟨Stack.initial text, automaton, none, 0⟩
  ((Machine.run l tk fuel fuel 0).run machine).2.finished

end CodeAtlas.Syntax
