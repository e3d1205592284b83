/-!
# Decimal fractions

Numbers in decimal digits, with a fraction and an exponent, that are kept in 64 bits : those that are too large
have no such form.
-/

namespace CodeAtlas.Decimal

/-- The value of digits. -/
def valueOf (digits : List Char) : Nat := digits.foldl (fun n d => n * 10 + (d.toNat - '0'.toNat)) 0

/-- The least number that no binary number of 64 bits can come near. -/
def tooLarge : Nat := Nat.pow 2 1024 - Nat.pow 2 970

/-- Whether a positive number is too large to be kept : digits before the point, digits after it, and the
exponent. A number below the power of ten with exponent 308 never is, and one from the next power on always
is. -/
def overflows (whole fraction : List Char) (exponent : Int) : Bool :=
  let digits := (whole ++ fraction).dropWhile (· == '0')
  let scale := exponent - fraction.length
  let magnitude := scale + digits.length
  if digits.isEmpty || magnitude ≤ 308 then false
  else if 309 < magnitude then true
  else if 0 ≤ scale then decide (tooLarge ≤ valueOf digits * Nat.pow 10 scale.toNat)
  else decide (tooLarge * Nat.pow 10 (-scale).toNat ≤ valueOf digits)

end CodeAtlas.Decimal
