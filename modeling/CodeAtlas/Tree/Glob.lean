/-!
# Glob patterns

A pattern describes paths byte by byte. `?` stands for any byte but a slash, `*` for any number of them,
`[…]` for one byte of a class, `{…,…}` for one of several patterns, and two stars between slashes for any
number of directories. A backslash takes away the meaning of the character after it.

A bracket that is never closed stands for itself, and so do all brackets after it. A pattern with unmatched
braces, a range that runs backwards or a backslash at the end is no pattern.
-/

namespace CodeAtlas.Glob

/-! ## Patterns -/

/-- A piece of a pattern. -/
inductive Token where
  | literal (bytes : List UInt8)
  /-- Any byte but a slash. -/
  | any
  /-- Any bytes but slashes. -/
  | star
  /-- Two stars at the beginning : nothing, or directories. -/
  | leading
  /-- Two stars between slashes. -/
  | between
  /-- Two stars after the last slash. -/
  | trailing
  /-- One byte that is in one of the ranges, or in none of them. -/
  | byteClass (negated : Bool) (ranges : List (UInt8 × UInt8))
  /-- One of several patterns. -/
  | choice (branches : List (List Token))
  deriving Inhabited

/-! ## Matching -/

def slash : UInt8 := 47

/-- What may be left after any bytes. -/
def suffixes : List UInt8 → List (List UInt8)
  | [] => [[]]
  | b :: bs => (b :: bs) :: suffixes bs

/-- What may be left after bytes that are no slashes. -/
def starRests : List UInt8 → List (List UInt8)
  | [] => [[]]
  | b :: bs => (b :: bs) :: if b == slash then [] else starRests bs

/-- What may be left after a slash and all before it. -/
def afterSlashes : List UInt8 → List (List UInt8)
  | [] => []
  | b :: bs => if b == slash then bs :: afterSlashes bs else afterSlashes bs

/-- What is left after some bytes, if they come first. -/
def afterBytes : List UInt8 → List UInt8 → List (List UInt8)
  | [], path => [path]
  | _ :: _, [] => []
  | b :: bs, c :: path => if b == c then afterBytes bs path else []

mutual

/-- Whether a piece stands for nothing : a choice of nothing but empty patterns. -/
def Token.isBlank : Token → Bool
  | .choice branches => allBlank branches
  | _ => false

/-- Whether all pieces stand for nothing. -/
def isBlank : List Token → Bool
  | [] => true
  | t :: ts => t.isBlank && isBlank ts

def allBlank : List (List Token) → Bool
  | [] => true
  | b :: bs => isBlank b && allBlank bs

end

mutual

/-- What may be left of a path after a piece. Empty patterns of a choice do not count. -/
def Token.rests : Token → List UInt8 → List (List UInt8)
  | .literal bytes, path => afterBytes bytes path
  | .any, path =>
    match path with
    | b :: bs => if b == slash then [] else [bs]
    | [] => []
  | .star, path => starRests path
  | .leading, path => path :: afterSlashes path
  | .between, path =>
    match path with
    | b :: bs => if b == slash then bs :: afterSlashes bs else []
    | [] => []
  | .trailing, path =>
    match path with
    | b :: bs => if b == slash then suffixes bs else []
    | [] => []
  | .byteClass negated ranges, path =>
    match path with
    | b :: bs =>
      if (ranges.any fun (low, high) => decide (low ≤ b) && decide (b ≤ high)) != negated then [bs] else []
    | [] => []
  | .choice branches, path =>
    if allBlank branches then [path] else (anyRests branches path).eraseDups

/-- What may be left of a path after all pieces. -/
def rests : List Token → List UInt8 → List (List UInt8)
  | [], path => [path]
  | t :: ts, path => ((t.rests path).flatMap fun rest => rests ts rest).eraseDups

def anyRests : List (List Token) → List UInt8 → List (List UInt8)
  | [], _ => []
  | b :: bs, path => (if isBlank b then [] else rests b path) ++ anyRests bs path

end

/-- Whether a pattern describes a path. Two stars alone describe every path. -/
def describes (tokens : List Token) (path : List UInt8) : Bool :=
  match tokens with
  | [.leading] => true
  | tokens => (rests tokens path).contains []

/-! ## Reading patterns -/

def bytesOf (c : Char) : List UInt8 := (String.singleton c).toUTF8.toList

/-- A range of characters as ranges of bytes : the range runs from the last byte of its first character to
the first byte of its last one. -/
def byteRanges (low high : Char) : List (UInt8 × UInt8) :=
  let single (b : UInt8) : UInt8 × UInt8 := (b, b)
  if low == high then (bytesOf low).map single
  else
    let first := bytesOf low
    let last := bytesOf high
    first.dropLast.map single ++ [(first.getLast?.getD 0, last.headD 0)] ++ (last.drop 1).map single

/-- What comes of reading a class. -/
inductive ClassOutcome where
  | closed (token : Token) (rest : List Char)
  | unclosed
  | backwards

/-- Read the rest of a class. The ranges so far stand last one first; `inRange` is whether a dash waits for
its right side. -/
def readClass (negated : Bool) : List (Char × Char) → (first inRange : Bool) → List Char → ClassOutcome
  | _, _, _, [] => .unclosed
  | ranges, first, inRange, c :: cs =>
    if c == ']' && !first then
      let ranges := if inRange then ('-', '-') :: ranges else ranges
      .closed (.byteClass negated (ranges.reverse.flatMap fun (low, high) => byteRanges low high)) cs
    else if c == '-' && !first && !inRange then readClass negated ranges false true cs
    else if inRange then
      match ranges with
      | (low, _) :: before =>
        if c < low then .backwards else readClass negated ((low, c) :: before) false false cs
      | [] => readClass negated [(c, c)] false false cs
    else readClass negated ((c, c) :: ranges) false false cs

/-- A pattern in the making : the pieces of the branch that is being read, last one first, and around it the
open choices, each with the pieces before it and its finished branches. -/
structure Draft where
  tokens : List Token
  choices : List (List Token × List (List Token))

namespace Draft

def push (d : Draft) (t : Token) : Draft := { d with tokens := t :: d.tokens }

def pushChar (d : Draft) (c : Char) : Draft := d.push (.literal (bytesOf c))

def inChoice (d : Draft) : Bool := !d.choices.isEmpty

/-- Begin a choice. -/
def openChoice (d : Draft) : Draft := ⟨[], (d.tokens, []) :: d.choices⟩

/-- Begin the next branch of a choice. Outside of one, a comma stands for itself. -/
def nextBranch (d : Draft) : Draft :=
  match d.choices with
  | [] => d.pushChar ','
  | (before, branches) :: outer => ⟨[], (before, d.tokens.reverse :: branches) :: outer⟩

/-- End a choice. -/
def closeChoice? (d : Draft) : Option Draft :=
  match d.choices with
  | [] => none
  | (before, branches) :: outer =>
    some ⟨.choice (d.tokens.reverse :: branches).reverse :: before, outer⟩

/-- Put two stars in the place of the slash before them; next to other such stars they change nothing. -/
def pushStars (d : Draft) (stars : Token) : Draft :=
  match d.tokens with
  | .leading :: _ => d
  | .trailing :: _ => d
  | _ :: before => { d with tokens := stars :: before }
  | [] => { d with tokens := [stars] }

/-- Read two stars, given the character before them and what follows. They stand for directories only between
slashes or the ends of a branch; elsewhere they are two single stars. -/
def readStars (d : Draft) (before : Option Char) (rest : List Char) : Draft × Option Char × List Char :=
  let plain : Draft × Option Char × List Char := ((d.push .star).push .star, some '*', rest)
  if d.tokens.isEmpty then
    match rest with
    | [] => (d.push .leading, some '*', [])
    | c :: more => if c == '/' then (d.push .leading, some '/', more) else plain
  else if before == some '/' || (d.inChoice && (before == some ',' || before == some '\x7b')) then
    match rest with
    | [] => (d.pushStars .trailing, some '*', [])
    | c :: more =>
      if c == '/' then (d.pushStars .between, some '/', more)
      else if d.inChoice && (c == ',' || c == '\x7d') then (d.pushStars .trailing, some '*', rest)
      else plain
  else plain

end Draft

/-- Read the characters of a pattern. `before` is the character before them, and `literal` is whether brackets
stand for themselves. -/
def readPattern : Nat → Draft → (before : Option Char) → (literal : Bool) → List Char → Option (List Token)
  | 0, _, _, _, _ => none
  | fuel + 1, d, before, literal, cs =>
    match cs with
    | [] => if d.inChoice then none else some d.tokens.reverse
    | '?' :: rest => readPattern fuel (d.push .any) (some '?') literal rest
    | '*' :: '*' :: rest =>
      let (d, last, rest) := d.readStars before rest
      readPattern fuel d last literal rest
    | '*' :: rest => readPattern fuel (d.push .star) (some '*') literal rest
    | '\x7b' :: rest => readPattern fuel d.openChoice (some '\x7b') literal rest
    | '\x7d' :: rest =>
      match d.closeChoice? with
      | some d => readPattern fuel d (some '\x7d') literal rest
      | none => none
    | ',' :: rest => readPattern fuel d.nextBranch (some ',') literal rest
    | '\\' :: rest =>
      match rest with
      | c :: rest => readPattern fuel (d.pushChar c) (some c) literal rest
      | [] => none
    | '[' :: rest =>
      if literal then readPattern fuel (d.pushChar '[') (some '[') true rest
      else
        let negated := rest.head? == some '!' || rest.head? == some '^'
        match readClass negated [] true false (if negated then rest.drop 1 else rest) with
        | .closed token more => readPattern fuel (d.push token) (some ']') false more
        | .unclosed => readPattern fuel (d.pushChar '[') (some '[') true rest
        | .backwards => none
    | c :: rest => readPattern fuel (d.pushChar c) (some c) literal rest

/-- The pieces of a pattern. -/
def ofString? (pattern : String) : Option (List Token) :=
  readPattern (pattern.length + 1) ⟨[], []⟩ none false pattern.toList

end CodeAtlas.Glob
