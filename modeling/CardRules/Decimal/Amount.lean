import CardRules.Decimal.Shortest

/-!
How amounts are written: with the fewest digits that read back, in positional notation whatever the
magnitude, and without a fraction where there is none.
-/

namespace CardRules.Decimal

/-- A decimal in positional notation. -/
def positional (x : Decimal) : String :=
  let digits := Nat.toDigits 10 x.significand
  if 0 ≤ x.exponent then
    String.ofList (digits ++ List.replicate x.exponent.toNat '0')
  else
    let places := (-x.exponent).toNat
    let padded := List.replicate (places + 1 - digits.length) '0' ++ digits
    let whole := padded.length - places
    String.ofList (padded.take whole ++ '.' :: padded.drop whole)

/-- The text of an amount. A negative zero keeps its sign. -/
def amountText (x : Float) : String :=
  if x.isNaN then "NaN"
  else
    let sign := if x.toBits >>> 63 = 1 then "-" else ""
    let magnitude :=
      if x.isInf then "inf"
      else if x == 0 then "0"
      else positional (shortest (.ofFloat x))
    sign ++ magnitude

end CardRules.Decimal
