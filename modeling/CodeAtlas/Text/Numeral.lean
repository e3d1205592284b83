/-!
# Numerals

Natural numbers in decimal digits, as they are given in arguments and queries. A plus sign may stand before
them, and zeros.
-/

namespace CodeAtlas.Numeral

/-- The value of digits, if there are any and nothing else. -/
def digits? (cs : List Char) : Option Nat :=
  if cs.isEmpty || !cs.all Char.isDigit then none
  else some (cs.foldl (fun n d => n * 10 + (d.toNat - '0'.toNat)) 0)

/-- A number below a bound. -/
def read? (bound : Nat) (text : String) : Option Nat :=
  let value := match text.toList with
    | '+' :: cs => digits? cs
    | cs => digits? cs
  value.filter fun n => decide (n < bound)

/-- A number below a bound; zero may also have a minus sign. -/
def readSigned? (bound : Nat) (text : String) : Option Nat :=
  match text.toList with
  | '-' :: cs => (digits? cs).filter (· == 0)
  | _ => read? bound text

end CodeAtlas.Numeral
