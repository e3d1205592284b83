/-!
# JSON values

A JSON value, with the fields of an object in the order in which they are written. A number is an integer of
64 bits, signed or not, or else is kept only as its text : nothing here computes with fractions.
-/

namespace CodeAtlas

/-- A JSON value. -/
inductive Json where
  | null
  | bool (b : Bool)
  | int (i : Int)
  /-- A number that is no 64-bit integer, as it is written. -/
  | real (text : String)
  | string (s : String)
  | array (items : List Json)
  | object (fields : List (String × Json))
  deriving Inhabited

namespace Json

/-- The value of a field : the last one if it is written more than once. -/
def field? (name : String) : Json → Option Json
  | .object fields => (fields.reverse.find? (·.1 == name)).map (·.2)
  | _ => none

def nat (n : Nat) : Json := .int n

def strings (ss : List String) : Json := .array (ss.map .string)

/-- A string, or null for none. -/
def optString : Option String → Json
  | some s => .string s
  | none => .null

end Json

end CodeAtlas
