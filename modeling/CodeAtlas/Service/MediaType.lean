/-!
# Media types

A media type has a type and a subtype with a slash between them, and may have parameters after semicolons.
Small and capital letters are the same.
-/

namespace CodeAtlas.Service

/-- A character of which names in a media type are made. -/
def isTokenChar (c : Char) : Bool := c.isAlphanum || "!#$%&'*+-.^_`|~".toList.contains c

/-- A character of a header. -/
def isHeaderChar (c : Char) : Bool := c == '\t' || (decide (32 ≤ c.toNat) && decide (c.toNat < 127))

/-- What follows a value in quotes : the first character may itself be a quote. -/
def afterQuoted? : Bool → List Char → Option (List Char)
  | _, [] => none
  | isFirst, c :: cs => if c == '"' && !isFirst then some cs else afterQuoted? false cs

/-- Whether these are parameters : names with values, which may be empty or in quotes. -/
def areParameters : Nat → List Char → Bool
  | 0, _ => false
  | fuel + 1, cs =>
    match cs with
    | [] => true
    | ' ' :: rest => areParameters fuel rest
    | cs =>
      match cs.takeWhile isTokenChar, cs.dropWhile isTokenChar with
      | _ :: _, '=' :: '"' :: rest =>
        match afterQuoted? true rest with
        | none => false
        | some rest =>
          match rest.dropWhile (· == ' ') with
          | [] => true
          | ';' :: rest => areParameters fuel rest
          | _ => false
      | _ :: _, '=' :: rest =>
        match rest.takeWhile isTokenChar, rest.dropWhile isTokenChar with
        | _, [] => true
        | _ :: _, ';' :: rest => areParameters fuel rest
        | _, _ => false
      | _, _ => false

/-- The base and the suffix of a subtype : what stands before and after its last plus sign, unless that comes
first. -/
def splitSuffix (subtype : List Char) : List Char × Option (List Char) :=
  let suffix := (subtype.reverse.takeWhile (· != '+')).reverse
  let base := ((subtype.reverse.dropWhile (· != '+')).drop 1).reverse
  if base.isEmpty then (subtype, none) else (base, some suffix)

/-- Whether a header says that a body is JSON : `application/json`, or another type of `application` that ends
with `+json`. -/
def isJsonType (header : String) : Bool :=
  let cs := header.toList.map Char.toLower
  let type := cs.takeWhile isTokenChar
  match cs.dropWhile isTokenChar with
  | '/' :: rest =>
    let subtype := rest.takeWhile isTokenChar
    let wellFormed := match rest.dropWhile isTokenChar with
      | [] => true
      | ';' :: parameters => !subtype.isEmpty && areParameters (parameters.length + 1) parameters
      | _ => false
    let (base, suffix) := splitSuffix subtype
    header.toList.all isHeaderChar && wellFormed && type == "application".toList &&
      (base == "json".toList || suffix == some "json".toList)
  | _ => false

end CodeAtlas.Service
