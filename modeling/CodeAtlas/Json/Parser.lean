import CodeAtlas.Json.Value

/-!
# Reading JSON

`parse?` reads one value and gives back what follows it. Values may nest 127 levels deep. A number without
a fraction and an exponent that fits 64 bits is an integer, except for minus zero; the escapes of a string
must make whole characters.
-/

namespace CodeAtlas.Json

/-- A reader : what it read and the rest of the text, or nothing. -/
abbrev Reader (α : Type) := List Char → Option (α × List Char)

def isBlank (c : Char) : Bool := c == ' ' || c == '\n' || c == '\t' || c == '\r'

def skipBlanks (cs : List Char) : List Char := cs.dropWhile isBlank

/-! ## Strings -/

/-- The value of a digit of base sixteen. -/
def hexValue? (c : Char) : Option Nat :=
  if '0' ≤ c && c ≤ '9' then some (c.toNat - '0'.toNat)
  else if 'a' ≤ c && c ≤ 'f' then some (c.toNat - 'a'.toNat + 10)
  else if 'A' ≤ c && c ≤ 'F' then some (c.toNat - 'A'.toNat + 10)
  else none

/-- Four digits of base sixteen. -/
def hex4? : Reader Nat
  | a :: b :: c :: d :: rest => do
    let a ← hexValue? a
    let b ← hexValue? b
    let c ← hexValue? c
    let d ← hexValue? d
    pure (((a * 16 + b) * 16 + c) * 16 + d, rest)
  | _ => none

/-- The character of an escape with four digits, or of a surrogate pair of two such escapes. -/
def unicodeEscape? : Reader Char := fun cs => do
  let (n, rest) ← hex4? cs
  if 0xD800 ≤ n && n ≤ 0xDBFF then
    match rest with
    | '\\' :: 'u' :: rest =>
      let (m, rest) ← hex4? rest
      if 0xDC00 ≤ m && m ≤ 0xDFFF then
        pure (Char.ofNat (0x10000 + (n - 0xD800) * 1024 + (m - 0xDC00)), rest)
      else none
    | _ => none
  else if 0xDC00 ≤ n && n ≤ 0xDFFF then none
  else pure (Char.ofNat n, rest)

/-- The character of an escape with one letter. -/
def letterEscape? (c : Char) : Option Char :=
  if c == '"' then some '"'
  else if c == '\\' then some '\\'
  else if c == '/' then some '/'
  else if c == 'b' then some '\x08'
  else if c == 'f' then some '\x0c'
  else if c == 'n' then some '\n'
  else if c == 'r' then some '\r'
  else if c == 't' then some '\t'
  else none

/-- The characters of a string after its first quote, up to its last. -/
def stringTail? : Nat → List Char → Reader (List Char)
  | 0, _, _ => none
  | fuel + 1, read, cs =>
    match cs with
    | [] => none
    | '"' :: rest => some (read.reverse, rest)
    | '\\' :: 'u' :: rest => do
      let (c, rest) ← unicodeEscape? rest
      stringTail? fuel (c :: read) rest
    | '\\' :: e :: rest => do
      let c ← letterEscape? e
      stringTail? fuel (c :: read) rest
    | c :: rest => if c.toNat < 32 || c == '\\' then none else stringTail? fuel (c :: read) rest

/-- A string after its first quote. -/
def stringAfterQuote? : Reader String := fun cs => do
  let (chars, rest) ← stringTail? (cs.length + 1) [] cs
  pure (String.ofList chars, rest)

/-! ## Numbers -/

def digitsOf (cs : List Char) : List Char := cs.takeWhile Char.isDigit

/-- The value of decimal digits. -/
def digitsValue (ds : List Char) : Nat := ds.foldl (fun n d => n * 10 + (d.toNat - '0'.toNat)) 0

/-- The length of a fraction with its point; `none` if the digits are missing. -/
def fraction? (cs : List Char) : Option Nat :=
  match cs with
  | '.' :: rest => let n := (digitsOf rest).length; if n == 0 then none else some (1 + n)
  | _ => some 0

/-- The length of an exponent; `none` if the digits are missing. -/
def exponent? (cs : List Char) : Option Nat :=
  match cs with
  | e :: rest =>
    if e == 'e' || e == 'E' then
      let sign := match rest with
        | '+' :: _ => 1
        | '-' :: _ => 1
        | _ => 0
      let n := (digitsOf (rest.drop sign)).length
      if n == 0 then none else some (1 + sign + n)
    else some 0
  | [] => some 0

/-- A number. -/
def number? : Reader Json := fun cs => do
  let negative := cs.head? == some '-'
  let body := if negative then cs.drop 1 else cs
  let whole := digitsOf body
  if whole.isEmpty || (whole.length > 1 && whole.head? == some '0') then none
  let fraction ← fraction? (body.drop whole.length)
  let exponent ← exponent? (body.drop (whole.length + fraction))
  let length := whole.length + fraction + exponent
  let rest := body.drop length
  let text := String.ofList (cs.take (length + if negative then 1 else 0))
  let n := digitsValue whole
  let isInt := fraction == 0 && exponent == 0 &&
    (if negative then n != 0 && n ≤ 0x8000000000000000 else n < UInt64.size)
  pure (if isInt then .int (if negative then -(n : Int) else n) else .real text, rest)

/-! ## Values -/

mutual

/-- A value. The first number bounds the steps, the second the levels that may still be opened. -/
def value? : Nat → Nat → Reader Json
  | 0, _, _ => none
  | fuel + 1, levels, cs =>
    match skipBlanks cs with
    | [] => none
    | 'n' :: 'u' :: 'l' :: 'l' :: rest => some (.null, rest)
    | 't' :: 'r' :: 'u' :: 'e' :: rest => some (.bool true, rest)
    | 'f' :: 'a' :: 'l' :: 's' :: 'e' :: rest => some (.bool false, rest)
    | '"' :: rest => (stringAfterQuote? rest).map fun (s, rest) => (.string s, rest)
    | '[' :: rest =>
      match levels with
      | 0 => none
      | levels + 1 =>
        match skipBlanks rest with
        | ']' :: rest => some (.array [], rest)
        | rest => (items? fuel levels [] rest).map fun (items, rest) => (.array items, rest)
    | '\x7b' :: rest =>
      match levels with
      | 0 => none
      | levels + 1 =>
        match skipBlanks rest with
        | '\x7d' :: rest => some (.object [], rest)
        | rest => (fields? fuel levels [] rest).map fun (fields, rest) => (.object fields, rest)
    | rest => number? rest

/-- The items of an array up to its closing bracket. -/
def items? : Nat → Nat → List Json → Reader (List Json)
  | 0, _, _, _ => none
  | fuel + 1, levels, read, cs =>
    match value? fuel levels cs with
    | none => none
    | some (v, rest) =>
      match skipBlanks rest with
      | ',' :: rest => items? fuel levels (v :: read) rest
      | ']' :: rest => some ((v :: read).reverse, rest)
      | _ => none

/-- The fields of an object up to its closing bracket. -/
def fields? : Nat → Nat → List (String × Json) → Reader (List (String × Json))
  | 0, _, _, _ => none
  | fuel + 1, levels, read, cs =>
    match skipBlanks cs with
    | '"' :: rest =>
      match stringAfterQuote? rest with
      | none => none
      | some (name, rest) =>
        match skipBlanks rest with
        | ':' :: rest =>
          match value? fuel levels rest with
          | none => none
          | some (v, rest) =>
            match skipBlanks rest with
            | ',' :: rest => fields? fuel levels ((name, v) :: read) rest
            | '\x7d' :: rest => some (((name, v) :: read).reverse, rest)
            | _ => none
        | _ => none
    | _ => none

end

/-- The first value of a text and what follows it. -/
def parse? (text : String) : Option (Json × List Char) :=
  let cs := text.toList
  value? (2 * cs.length + 2) 127 cs

/-- The value that is the whole of a text. -/
def ofString? (text : String) : Option Json :=
  match parse? text with
  | some (v, rest) => if (skipBlanks rest).isEmpty then some v else none
  | none => none

end CodeAtlas.Json
