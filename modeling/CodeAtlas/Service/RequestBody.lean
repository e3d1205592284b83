import CodeAtlas.Json.Parser
import CodeAtlas.Text.Decimal

/-!
# Request bodies

The body of a request is a JSON object with the field `root_path`, or an array with that one item. It is read from
left to right, and the first thing that is wrong decides which refusal there is. What follows the value is
not read.
-/

namespace CodeAtlas.Service

open CodeAtlas (Json)
open CodeAtlas.Json (skipBlanks hexValue? digitsOf stringAfterQuote?)

/-- Why a body is refused. -/
inductive BodyError where
  /-- It is not JSON. -/
  | malformed
  /-- It is not what is asked for. -/
  | mismatched
  deriving DecidableEq, Repr, Inhabited

/-! ## Values that are passed over -/

/-- What follows an expected text. -/
def afterText? : List Char → List Char → Option (List Char)
  | [], cs => some cs
  | _ :: _, [] => none
  | e :: es, c :: cs => if e == c then afterText? es cs else none

/-- What follows a string, after its opening quote. An escape of four digits need not be a character. -/
def afterString? : Nat → List Char → Option (List Char)
  | 0, _ => none
  | fuel + 1, cs =>
    match cs with
    | [] => none
    | '"' :: rest => some rest
    | '\\' :: 'u' :: a :: b :: c :: d :: rest =>
      if [a, b, c, d].all fun x => (hexValue? x).isSome then afterString? fuel rest else none
    | '\\' :: c :: rest => if "\"\\/bfnrt".toList.contains c then afterString? fuel rest else none
    | c :: rest => if c.toNat < 32 then none else afterString? fuel rest

/-- What follows digits, of which there must be some. -/
def afterDigits? (cs : List Char) : Option (List Char) :=
  let n := (digitsOf cs).length
  if n == 0 then none else some (cs.drop n)

/-- What follows the fraction and the exponent of a number. -/
def afterFraction? (cs : List Char) : Option (List Char) := do
  let cs ← match cs with
    | '.' :: rest => afterDigits? rest
    | cs => some cs
  match cs with
  | e :: rest =>
    if e == 'e' || e == 'E' then
      match rest with
      | '+' :: rest => afterDigits? rest
      | '-' :: rest => afterDigits? rest
      | rest => afterDigits? rest
    else return cs
  | [] => return cs

/-- What follows a number, after its sign. -/
def afterNumber? (cs : List Char) : Option (List Char) :=
  match cs with
  | '0' :: rest => if (rest.head?.any Char.isDigit) then none else afterFraction? rest
  | cs => (afterDigits? cs).bind afterFraction?

mutual

/-- What follows a value. -/
def afterValue? : Nat → List Char → Option (List Char)
  | 0, _ => none
  | fuel + 1, cs =>
    match skipBlanks cs with
    | 'n' :: rest => afterText? "ull".toList rest
    | 't' :: rest => afterText? "rue".toList rest
    | 'f' :: rest => afterText? "alse".toList rest
    | '"' :: rest => afterString? (rest.length + 1) rest
    | '-' :: rest => afterNumber? rest
    | '[' :: rest =>
      match skipBlanks rest with
      | ']' :: rest => some rest
      | rest => afterItems? fuel rest
    | '\x7b' :: rest =>
      match skipBlanks rest with
      | '\x7d' :: rest => some rest
      | rest => afterFields? fuel rest
    | c :: rest => if c.isDigit then afterNumber? (c :: rest) else none
    | [] => none

/-- What follows the items of an array. -/
def afterItems? : Nat → List Char → Option (List Char)
  | 0, _ => none
  | fuel + 1, cs =>
    match (afterValue? fuel cs).map skipBlanks with
    | some (',' :: rest) => afterItems? fuel rest
    | some (']' :: rest) => some rest
    | _ => none

/-- What follows the fields of an object. -/
def afterFields? : Nat → List Char → Option (List Char)
  | 0, _ => none
  | fuel + 1, cs =>
    match skipBlanks cs with
    | '"' :: rest =>
      match (afterString? (rest.length + 1) rest).map skipBlanks with
      | some (':' :: rest) =>
        match (afterValue? fuel rest).map skipBlanks with
        | some (',' :: rest) => afterFields? fuel rest
        | some ('\x7d' :: rest) => some rest
        | _ => none
      | _ => none
    | _ => none

end

/-! ## The request -/

/-- Whether a number, after its sign, is too large to be kept. -/
def isTooLarge (cs : List Char) : Bool :=
  let whole := digitsOf cs
  let rest := cs.drop whole.length
  let fraction := if rest.head? == some '.' then digitsOf (rest.drop 1) else []
  let rest := if rest.head? == some '.' then rest.drop (fraction.length + 1) else rest
  let exponent : Int := match rest with
    | _ :: '-' :: ds => -(Decimal.valueOf (digitsOf ds) : Int)
    | _ :: '+' :: ds => Decimal.valueOf (digitsOf ds)
    | _ :: ds => Decimal.valueOf (digitsOf ds)
    | [] => 0
  Decimal.overflows whole fraction exponent

/-- The refusal of a value of another kind; one that is not JSON itself, or a number that is too large, is
malformed. An array or an object is refused at its first character. -/
def wrongKind (cs : List Char) : BodyError :=
  match cs with
  | '[' :: _ => .mismatched
  | '\x7b' :: _ => .mismatched
  | '"' :: rest => if (stringAfterQuote? rest).isSome then .mismatched else .malformed
  | cs =>
    let unsigned := if cs.head? == some '-' then cs.drop 1 else cs
    if (afterValue? 1 cs).isNone || (unsigned.head?.any Char.isDigit && isTooLarge unsigned) then .malformed
    else .mismatched

/-- Read a string. -/
def readString (cs : List Char) : Except BodyError (String × List Char) :=
  match skipBlanks cs with
  | '"' :: rest =>
    match stringAfterQuote? rest with
    | some found => .ok found
    | none => .error .malformed
  | cs => .error (wrongKind cs)

/-- What follows a colon. -/
def afterColon (cs : List Char) : Except BodyError (List Char) :=
  match skipBlanks cs with
  | ':' :: rest => .ok rest
  | _ => .error .malformed

/-- The name of the field of a request. -/
def rootField : String := "root_path"

/-- Read the fields of a request from a name on; `found` is the root so far. -/
def readFields : Nat → Option String → List Char → Except BodyError String
  | 0, _, _ => .error .malformed
  | fuel + 1, found, cs =>
    match skipBlanks cs with
    | '"' :: rest =>
      match stringAfterQuote? rest with
      | none => .error .malformed
      | some (name, rest) =>
        if name == rootField && found.isSome then .error .mismatched
        else do
          let rest ← afterColon rest
          let (found, rest) ←
            if name == rootField then (readString rest).map fun (s, rest) => (some s, rest)
            else
              match afterValue? (rest.length + 1) rest with
              | some rest => .ok (found, rest)
              | none => .error .malformed
          match skipBlanks rest with
          | ',' :: rest => readFields fuel found rest
          | '\x7d' :: _ =>
            match found with
            | some root => return root
            | none => .error .mismatched
          | _ => .error .malformed
    | _ => .error .malformed

/-- The root that a body asks for. -/
def readRoot (body : String) : Except BodyError String :=
  match skipBlanks body.toList with
  | '\x7b' :: rest =>
    match skipBlanks rest with
    | '\x7d' :: _ => .error .mismatched
    | rest => readFields (rest.length + 1) none rest
  | '[' :: rest =>
    match skipBlanks rest with
    | ']' :: _ => .error .mismatched
    | rest => do
      let (root, rest) ← readString rest
      match skipBlanks rest with
      | ']' :: _ => return root
      | _ => .error .malformed
  | cs => .error (wrongKind cs)

end CodeAtlas.Service
