import CodeAtlas.Json.Parser
import CodeAtlas.Text.Numeral
import CodeAtlas.Text.Path
import CodeAtlas.Text.Utf8

/-!
# Query strings

A query string is a list of names with values, as forms are encoded : with `&` between the pairs and `=` between
name and value. A plus sign stands for a space, and `%` with two digits of base sixteen for a byte.
-/

namespace CodeAtlas.Service

open CodeAtlas.Json (hexValue?)

/-- The bytes of a text in which some are written with `%`. -/
def percentDecode : List UInt8 → List UInt8
  | [] => []
  | b :: high :: low :: rest =>
    match b == 37, hexValue? (Char.ofNat high.toNat), hexValue? (Char.ofNat low.toNat) with
    | true, some h, some l => (h * 16 + l).toUInt8 :: percentDecode rest
    | _, _, _ => b :: percentDecode (high :: low :: rest)
  | b :: rest => b :: percentDecode rest

/-- A name or a value as it was before it was encoded. -/
def formDecode (cs : List Char) : String :=
  let spaced := cs.map fun c => if c == '+' then ' ' else c
  Utf8.decode (percentDecode (String.ofList spaced).toUTF8.toList)

/-- The pair of one part of a query string. A part without `=` is a name with an empty value. -/
def formPair (part : List Char) : String × String :=
  (formDecode (part.takeWhile (· != '=')), formDecode ((part.dropWhile (· != '=')).drop 1))

/-- The pairs of a query string. -/
def formPairs (query : String) : List (String × String) :=
  ((Path.splitAtEach '&' query.toList).filter (!·.isEmpty)).map formPair

/-- The values under a name. -/
def valuesOf (pairs : List (String × String)) (name : String) : List String :=
  pairs.filterMap fun (n, v) => if n == name then some v else none

/-- The value under a name that may be given once; the outer option is none if it is given more often. -/
def optional? (pairs : List (String × String)) (name : String) : Option (Option String) :=
  match valuesOf pairs name with
  | [] => some none
  | [v] => some (some v)
  | _ => none

/-- The value under a name that must be given once. -/
def required? (pairs : List (String × String)) (name : String) : Option String :=
  (optional? pairs name).bind id

/-- The number of 64 bits under a name that may be given once. -/
def optionalNumber? (pairs : List (String × String)) (name : String) : Option (Option Nat) := do
  match ← optional? pairs name with
  | none => return none
  | some text =>
    let n ← Numeral.read? UInt64.size text
    return some n

end CodeAtlas.Service
