import CodeAtlas.Json.Parser
import CodeAtlas.Text.Decimal

/-!
# TOML strings, numbers and dates

Each reader takes what it reads off the front of a list of characters. Integers have 64 bits and a sign.
Fractions are kept as they are written, and dates as records that have no field in common with any other.
-/

namespace CodeAtlas.Toml

open CodeAtlas (Json)
open CodeAtlas.Decimal (overflows)
open CodeAtlas.Json (Reader hexValue? digitsOf digitsValue)

/-! ## Blanks and line ends -/

def isBlank (c : Char) : Bool := c == ' ' || c == '\t'

def skipBlanks (cs : List Char) : List Char := cs.dropWhile isBlank

/-- What follows a line end, if there is one. -/
def afterLineEnd? : List Char → Option (List Char)
  | '\n' :: rest => some rest
  | '\r' :: '\n' :: rest => some rest
  | _ => none

/-- Skip blanks and line ends. -/
def skipSpace : List Char → List Char
  | [] => []
  | '\r' :: '\n' :: rest => skipSpace rest
  | c :: rest => if isBlank c || c == '\n' then skipSpace rest else c :: rest

/-- Whether a character may stand in a string as it is : a tab, or what is no control character. -/
def isPlain (c : Char) : Bool := c == '\t' || (decide (32 ≤ c.toNat) && c.toNat != 127)

/-! ## Strings -/

/-- The character of `n` digits of base sixteen. -/
def codePoint? (n : Nat) : Reader Char := fun cs =>
  let digits := cs.take n
  if digits.length != n then none
  else do
    let values ← digits.mapM hexValue?
    let code := values.foldl (fun acc d => acc * 16 + d) 0
    if code.isValidChar then some (Char.ofNat code, cs.drop n) else none

/-- The character of an escape, after its backslash. -/
def escape? : Reader Char
  | 'b' :: rest => some ('\x08', rest)
  | 't' :: rest => some ('\t', rest)
  | 'n' :: rest => some ('\n', rest)
  | 'f' :: rest => some ('\x0c', rest)
  | 'r' :: rest => some ('\r', rest)
  | '"' :: rest => some ('"', rest)
  | '\\' :: rest => some ('\\', rest)
  | 'u' :: rest => codePoint? 4 rest
  | 'U' :: rest => codePoint? 8 rest
  | _ => none

/-- The rest of a string in double quotes. -/
def basicTail? : Nat → List Char → Reader (List Char)
  | 0, _, _ => none
  | fuel + 1, read, cs =>
    match cs with
    | [] => none
    | '"' :: rest => some (read.reverse, rest)
    | '\\' :: rest =>
      match escape? rest with
      | some (c, rest) => basicTail? fuel (c :: read) rest
      | none => none
    | c :: rest => if isPlain c then basicTail? fuel (c :: read) rest else none

/-- The rest of a string in single quotes. -/
def literalTail? : List Char → Reader (List Char)
  | _, [] => none
  | read, '\'' :: rest => some (read.reverse, rest)
  | read, c :: rest => if isPlain c then literalTail? (c :: read) rest else none

/-- The number of quotes that belong to a string of several lines, given how many stand at its end : three of
them close it, and no more than two stand before these. -/
def innerQuotes (run : Nat) : Nat := min (run - 3) 2

/-- The rest of a string of several lines in quotes `q`; only in double quotes are there escapes. A line end
reads as a line feed, and an escaped one takes all blank space after it along. -/
def linesTail? (q : Char) : Nat → List Char → Reader (List Char)
  | 0, _, _ => none
  | fuel + 1, read, cs =>
    match afterLineEnd? cs with
    | some rest => linesTail? q fuel ('\n' :: read) rest
    | none =>
      match cs with
      | [] => none
      | c :: rest =>
        if c == q then
          let run := (cs.takeWhile (· == q)).length
          if 3 ≤ run then
            let inner := innerQuotes run
            some (read.reverse ++ List.replicate inner q, cs.drop (inner + 3))
          else linesTail? q fuel (List.replicate run q ++ read) (cs.drop run)
        else if c == '\\' && q == '"' then
          match afterLineEnd? (skipBlanks rest) with
          | some rest => linesTail? q fuel read (skipSpace rest)
          | none =>
            match escape? rest with
            | some (c, rest) => linesTail? q fuel (c :: read) rest
            | none => none
        else if isPlain c then linesTail? q fuel (c :: read) rest
        else none

/-- A string of several lines after its opening quotes; a line end right there does not belong to it. -/
def linesString? (q : Char) : Reader (List Char) := fun cs =>
  linesTail? q (cs.length + 1) [] ((afterLineEnd? cs).getD cs)

/-- A string of any kind. -/
def string? : Reader String := fun cs =>
  let read := match cs with
    | '"' :: '"' :: '"' :: rest => linesString? '"' rest
    | '"' :: rest => basicTail? (rest.length + 1) [] rest
    | '\'' :: '\'' :: '\'' :: rest => linesString? '\'' rest
    | '\'' :: rest => literalTail? [] rest
    | _ => none
  read.map fun (chars, rest) => (String.ofList chars, rest)

/-! ## Numbers -/

/-- Digits with single underscores between them. The characters are counted; there must be a digit first. -/
def digitRun (isDigit : Char → Bool) : List Char → Nat
  | [] => 0
  | [c] => if isDigit c then 1 else 0
  | c :: d :: rest =>
    if !isDigit c then 0
    else if d == '_' then
      let more := digitRun isDigit rest
      if more == 0 then 1 else 2 + more
    else 1 + digitRun isDigit (d :: rest)

/-- The length of a sign. -/
def signLength : List Char → Nat
  | '+' :: _ => 1
  | '-' :: _ => 1
  | _ => 0

/-- The length of a decimal integer : no zero stands before other digits. -/
def integerLength (cs : List Char) : Nat :=
  let sign := signLength cs
  let body := cs.drop sign
  if body.head? == some '0' then sign + 1
  else
    let digits := digitRun Char.isDigit body
    if digits == 0 then 0 else sign + digits

/-- The length of a fraction with its point, 0 if there is none. -/
def fractionLength : List Char → Nat
  | '.' :: rest =>
    let digits := digitRun Char.isDigit rest
    if digits == 0 then 0 else 1 + digits
  | _ => 0

/-- The length of an exponent, 0 if there is none. -/
def exponentLength : List Char → Nat
  | e :: rest =>
    if e == 'e' || e == 'E' then
      let sign := signLength rest
      let digits := digitRun Char.isDigit (rest.drop sign)
      if digits == 0 then 0 else 1 + sign + digits
    else 0
  | [] => 0

/-- The characters without underscores. -/
def withoutUnderscores (cs : List Char) : List Char := cs.filter (· != '_')

/-- The value of an exponent as it is written. -/
def exponentValue (cs : List Char) : Int :=
  match withoutUnderscores (cs.drop 1) with
  | '-' :: ds => -(digitsValue ds : Int)
  | '+' :: ds => digitsValue ds
  | ds => digitsValue ds

/-- A number with a fraction or an exponent, or a special one. -/
def float? : Reader Json := fun cs =>
  let sign := signLength cs
  match cs.drop sign with
  | 'i' :: 'n' :: 'f' :: rest => some (.real (String.ofList (cs.take (sign + 3))), rest)
  | 'n' :: 'a' :: 'n' :: rest => some (.real (String.ofList (cs.take (sign + 3))), rest)
  | _ =>
    let whole := integerLength cs
    let fraction := fractionLength (cs.drop whole)
    let exponent := exponentLength (cs.drop (whole + fraction))
    if whole == 0 || fraction + exponent == 0 then none
    else
      let large := overflows (withoutUnderscores ((cs.take whole).drop sign))
        (withoutUnderscores ((cs.drop (whole + 1)).take (fraction - 1)))
        (exponentValue ((cs.drop (whole + fraction)).take exponent))
      if large && cs.head? != some '-' then none
      else
        let length := whole + fraction + exponent
        some (.real (String.ofList (cs.take length)), cs.drop length)

/-- An integer of 64 bits. -/
def inRange? (i : Int) : Option Json :=
  if -0x8000000000000000 ≤ i ∧ i < 0x8000000000000000 then some (.int i) else none

/-- An integer in a base given by its mark, after the mark. -/
def radixInteger? (base : Nat) : Reader Json := fun cs =>
  let isDigit (c : Char) : Bool := (hexValue? c).any fun v => decide (v < base)
  let length := digitRun isDigit cs
  if length == 0 then none
  else
    let value := (withoutUnderscores (cs.take length)).foldl
      (fun acc c => acc * base + (hexValue? c).getD 0) 0
    (inRange? value).map fun v => (v, cs.drop length)

def integer? : Reader Json
  | '0' :: 'x' :: rest => radixInteger? 16 rest
  | '0' :: 'o' :: rest => radixInteger? 8 rest
  | '0' :: 'b' :: rest => radixInteger? 2 rest
  | cs =>
    let length := integerLength cs
    if length == 0 then none
    else
      let sign := signLength cs
      let n := digitsValue (withoutUnderscores ((cs.take length).drop sign))
      (inRange? (if cs.head? == some '-' then -(n : Int) else n)).map fun v => (v, cs.drop length)

/-! ## Dates and times -/

/-- Exactly `n` digits whose value is within bounds. -/
def field? (n low high : Nat) : Reader Nat := fun cs =>
  let digits := cs.take n
  let value := digitsValue digits
  if digits.length == n && digits.all Char.isDigit && decide (low ≤ value) && decide (value ≤ high)
  then some (value, cs.drop n) else none

/-- A character that must come next. -/
def expect? (c : Char) : List Char → Option (List Char)
  | d :: rest => if c == d then some rest else none
  | [] => none

/-- The number of days of a month. -/
def daysOf (year month : Nat) : Nat :=
  if month == 2 then
    if year % 4 == 0 && (year % 100 != 0 || year % 400 == 0) then 29 else 28
  else if month == 4 || month == 6 || month == 9 || month == 11 then 30
  else 31

/-- What follows a date. -/
def afterDate? (cs : List Char) : Option (List Char) := do
  let (year, cs) ← field? 4 0 9999 cs
  let cs ← expect? '-' cs
  let (month, cs) ← field? 2 1 12 cs
  let cs ← expect? '-' cs
  let (_, cs) ← field? 2 1 (daysOf year month) cs
  return cs

/-- What follows a time. -/
def afterTime? (cs : List Char) : Option (List Char) := do
  let (_, cs) ← field? 2 0 23 cs
  let cs ← expect? ':' cs
  let (_, cs) ← field? 2 0 59 cs
  let cs ← expect? ':' cs
  let (_, cs) ← field? 2 0 60 cs
  match cs with
  | '.' :: rest =>
    let digits := (digitsOf rest).length
    return if digits == 0 then cs else rest.drop digits
  | _ => return cs

/-- What follows an offset from universal time, if there is one. -/
def afterOffset (cs : List Char) : List Char :=
  match cs with
  | 'Z' :: rest => rest
  | 'z' :: rest => rest
  | _ =>
    if signLength cs == 0 then cs
    else
      (do let (_, rest) ← field? 2 0 23 (cs.drop 1)
          let rest ← expect? ':' rest
          let (_, rest) ← field? 2 0 59 rest
          return rest).getD cs

/-- What follows a date, a time, or a date with a time. -/
def afterMoment? (cs : List Char) : Option (List Char) :=
  match afterDate? cs with
  | none => afterTime? cs
  | some rest =>
    match rest with
    | d :: more =>
      if d == 'T' || d == 't' || d == ' ' then
        match afterTime? more with
        | some rest => some (afterOffset rest)
        | none => some rest
      else some rest
    | [] => some rest

/-- A date or a time : a record under no name. -/
def moment? : Reader Json := fun cs =>
  (afterMoment? cs).map fun rest =>
    (.object [("", .string (String.ofList (cs.take (cs.length - rest.length))))], rest)

end CodeAtlas.Toml
