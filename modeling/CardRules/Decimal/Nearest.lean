import CardRules.Decimal.Shortest

/-!
The binary64 number nearest to a decimal.
-/

namespace CardRules.Decimal

/-- The number nearest to `significand · 10 ^ exponent`, the even one of two. Decimals far beyond
the largest number and far below the smallest one are decided by their magnitude alone. -/
def toFloat (x : Decimal) : Float :=
  let magnitude := (digitCount x.significand : Int) + x.exponent
  if x.significand = 0 || magnitude < -400 then 0
  else if magnitude > 400 then Float.ofBits 0x7FF0000000000000
  else Float.ofScientific x.significand (x.exponent < 0) x.exponent.natAbs

/-- The number nearest to a decimal with a sign; zero keeps the sign. -/
def toSignedFloat (negative : Bool) (x : Decimal) : Float :=
  if negative then -x.toFloat else x.toFloat

/-- The decimal written with digits before and after the point, and an exponent. -/
def ofParts (whole fraction : Nat) (places : Nat) (exponent : Int) : Decimal :=
  ⟨whole * Nat.pow 10 places + fraction, exponent - places⟩

end CardRules.Decimal
