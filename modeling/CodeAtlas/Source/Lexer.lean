import CodeAtlas.Source.Grammar
import CodeAtlas.Text.Identifier
import CodeAtlas.Text.Position

/-!
# Matching lexemes

`Lexeme.matched` is the length of the longest text of a lexeme at the head of a list of characters, 0 if
there is none. `lex` skips blanks and takes the longest lexeme among those that the parser can use; of two
equally long ones the first in `Lexeme.weight`, then the earlier.
-/

namespace CodeAtlas.Source

open CodeAtlas.Grammar CodeAtlas.Text

/-! ## Numbers -/

mutual

/-- The length of a run of decimal digits with single underscores after digits. -/
def decimalRun : List Char → Nat
  | [] => 0
  | c :: rest => if c.isDigit then 1 + decimalTail rest else 0

/-- The rest of a run of decimal digits, after a digit. -/
def decimalTail : List Char → Nat
  | [] => 0
  | c :: rest =>
    if c.isDigit then 1 + decimalTail rest
    else if c == '_' then 1 + decimalRun rest
    else 0

end

/-- The length of a run of digits of some radix with single underscores before digits. -/
def radixRun (isDigit : Char → Bool) : List Char → Nat
  | [] => 0
  | [c] => if isDigit c then 1 else 0
  | c :: d :: rest =>
    if isDigit c then 1 + radixRun isDigit (d :: rest)
    else if c == '_' && isDigit d then 1 + radixRun isDigit (d :: rest)
    else 0

def isHexDigit (c : Char) : Bool :=
  c.isDigit || ('a' ≤ c && c ≤ 'f') || ('A' ≤ c && c ≤ 'F')

def isOctalDigit (c : Char) : Bool := '0' ≤ c && c ≤ '7'

def isBinaryDigit (c : Char) : Bool := c == '0' || c == '1'

/-- 1 if the list starts with one of the characters. -/
def optionalOne (cs : List Char) (allowed : List Char) : Nat :=
  match cs.head? with
  | some c => if allowed.contains c then 1 else 0
  | none => 0

/-- The length of an integer with a radix mark. -/
def radixInteger : List Char → Nat
  | '0' :: mark :: rest =>
    let digits :=
      if mark == 'x' || mark == 'X' then radixRun isHexDigit rest
      else if mark == 'o' || mark == 'O' then radixRun isOctalDigit rest
      else if mark == 'b' || mark == 'B' then radixRun isBinaryDigit rest
      else 0
    if digits == 0 then 0 else 2 + digits + optionalOne (rest.drop digits) ['L', 'l']
  | _ => 0

/-- The length of a decimal integer, a long or imaginary mark included. -/
def decimalInteger (cs : List Char) : Nat :=
  let digits := decimalRun cs
  if digits == 0 then 0 else digits + optionalOne (cs.drop digits) ['L', 'l', 'j', 'J']

/-- The length of an exponent. -/
def exponentRun : List Char → Nat
  | e :: rest =>
    if e == 'e' || e == 'E' then
      let sign := optionalOne rest ['+', '-']
      let digits := decimalRun (rest.drop sign)
      if digits == 0 then 0 else 1 + sign + digits
    else 0
  | [] => 0

/-- The length of a number with a point or an exponent. -/
def floatRun (cs : List Char) : Nat :=
  let whole := decimalRun cs
  let afterWhole := cs.drop whole
  let body :=
    if afterWhole.head? == some '.' then
      let fraction := decimalRun (afterWhole.drop 1)
      if whole == 0 && fraction == 0 then 0
      else whole + 1 + fraction + exponentRun (afterWhole.drop (1 + fraction))
    else
      let exponent := exponentRun afterWhole
      if whole == 0 || exponent == 0 then 0 else whole + exponent
  if body == 0 then 0 else body + optionalOne (cs.drop body) ['j', 'J']

/-! ## Other lexemes -/

/-- The number of leading characters that satisfy `p`. -/
def countWhile (p : Char → Bool) : List Char → Nat
  | [] => 0
  | c :: rest => if p c then 1 + countWhile p rest else 0

/-- The length of an identifier. -/
def identifierRun : List Char → Nat
  | [] => 0
  | c :: rest => if isIdentifierStart c then 1 + countWhile isIdentifierContinue rest else 0

/-- `n` if the first `n` characters exist and satisfy `p`, else 0. -/
def exactly (n : Nat) (p : Char → Bool) (cs : List Char) : Nat :=
  let taken := cs.take n
  if taken.length == n && taken.all p then n else 0

/-- The length of what follows the backslash of an escape sequence. -/
def escapedRun : List Char → Nat
  | [] => 0
  | c :: rest =>
    let marked (n : Nat) : Nat :=
      let digits := exactly n isHexDigit rest
      if digits == 0 then 0 else 1 + digits
    if c == 'u' then marked 4
    else if c == 'U' then marked 8
    else if c == 'x' then marked 2
    else if c.isDigit then 1 + min 2 (countWhile Char.isDigit rest)
    else if c == '\r' then (if rest.head? == some '\n' then 2 else 0)
    else if c == '\n' then 1
    else if ['\'', '"', 'a', 'b', 'f', 'r', 'n', 't', 'v', '\\'].contains c then 1
    else if c == 'N' && rest.head? == some '\x7b' then
      let name := countWhile (fun d => d != '\x7d' && d != '\x00') (rest.drop 1)
      if name != 0 && (rest.drop (1 + name)).head? == some '\x7d' then 3 + name else 0
    else 0

/-- The length of what follows the backslash of a continued line. -/
def continuedRun : List Char → Nat
  | '\r' :: '\n' :: _ => 2
  | '\n' :: _ => 1
  | '\x00' :: _ => 1
  | _ => 0

/-- Whether a character can stand in the literal part of a format specifier. -/
def isFormatChar (c : Char) : Bool :=
  c != '\x7b' && c != '\x7d' && c != '\n' && c != '\x00'

/-- The length of the longest text of a lexeme at the head of the list, 0 if there is none. -/
def Lexeme.matched : Lexeme → List Char → Nat
  | .literal text, cs => if text.toList.isPrefixOf cs then text.length else 0
  | .identifier, cs => identifierRun cs
  | .integer, cs => max (radixInteger cs) (decimalInteger cs)
  | .float, cs => floatRun cs
  | .escape, '\\' :: rest =>
    let n := escapedRun rest
    if n == 0 then 0 else 1 + n
  | .backslash, '\\' :: _ => 1
  | .formatText, cs => countWhile isFormatChar cs
  | .conversion, '!' :: c :: _ => if 'a' ≤ c && c ≤ 'z' then 2 else 0
  | .comment, '#' :: rest => 1 + countWhile (fun c => c != '\n' && c != '\x00') rest
  | .continuation, '\\' :: rest =>
    let n := continuedRun rest
    if n == 0 then 0 else 1 + n
  | _, _ => 0

/-- Which of two equally long lexemes is meant : an escape before a literal before all others. -/
def Lexeme.weight : Lexeme → Nat
  | .escape => 2
  | .literal _ => 1
  | _ => 0

/-- Lexemes that must follow the previous token directly. -/
def Lexeme.isImmediate : Lexeme → Bool
  | .escape => true
  | .backslash => true
  | _ => false

/-! ## The lexer -/

/-- A blank may stand before any token. -/
def isBlank (c : Char) : Bool :=
  ('\t' ≤ c && c ≤ '\r') || c == ' ' || c == '\u200b' || c == '\u2060' || c == '\ufeff'

/-- A token that the lexer found. -/
structure Lexed where
  symbol : Nat
  start : Cursor
  /-- Its number of characters. -/
  length : Nat

/-- The keywords with their symbols. -/
def keywords : List (String × Nat) :=
  flatGrammar.lexical.filterMap fun (symbol, lexeme) => lexeme.keyword?.map fun text => (text, symbol)

/-- The set of keyword symbols. -/
def keywordSet : TokenSet := TokenSet.ofList (keywords.map (·.2))

/-- The symbol of a keyword. -/
def keyword? (text : String) : Option Nat := keywords.lookup text

/-- The lexemes that are looked for by themselves; keywords are found as identifiers. -/
def plainLexemes : List (Nat × Lexeme) :=
  flatGrammar.lexical.filter fun e => e.2.keyword?.isNone

/-- The symbol of the literal part of a format specifier. -/
def formatSymbol : Nat :=
  ((flatGrammar.lexical.find? fun e => e.2 == Lexeme.formatText).map (·.1)).getD 0

/-- The better of the best lexeme so far and another : the longer, then the weightier. -/
def better (cs : List Char) (best : Option (Nat × Nat × Nat)) (e : Nat × Lexeme) :
    Option (Nat × Nat × Nat) :=
  let n := e.2.matched cs
  if n == 0 then best
  else
    match best with
    | none => some (e.1, n, e.2.weight)
    | some (_, m, w) => if m < n || (m == n && w < e.2.weight) then some (e.1, n, e.2.weight) else best

/-- The next token among the valid ones. -/
def lex (valid : TokenSet) (from' : Cursor) : Option Lexed :=
  let c := if from'.position.byte == 0 then from'.skip '\ufeff' else from'
  let start :=
    if valid.has formatSymbol then c.dropWhile (· == '\n') else c.dropWhile isBlank
  if start.atEnd then (if valid.has 0 then some ⟨0, start, 0⟩ else none)
  else if valid.has formatSymbol && (start.rest.head?.any isFormatChar) then
    some ⟨formatSymbol, start, Lexeme.formatText.matched start.rest⟩
  else
    let usable := if valid &&& keywordSet == 0 then valid else valid ||| TokenSet.single language.word
    let moved := start.position.byte != c.position.byte
    let best := plainLexemes.foldl
      (fun best e =>
        if usable.has e.1 && !(moved && e.2.isImmediate) then better start.rest best e else best)
      none
    best.map fun (symbol, n, _) => ⟨symbol, start, n⟩

end CodeAtlas.Source
