/-!
The shortest decimal that reads back as a given binary64 number.

A finite number is `mantissa · 2 ^ exponent`. The reals that round to it form an interval, whose
ends count when the mantissa is even. On the decimal grid of one, two, up to seventeen digits the two
neighbours of the number are tried; the first grid on which one of them lies in the interval gives
the digits.
-/

namespace CardRules

/-- The number `significand · 10 ^ exponent`. -/
structure Decimal where
  significand : Nat
  exponent : Int
deriving DecidableEq

namespace Decimal

/-- A positive binary number `mantissa · 2 ^ exponent`, with the distance to the next smaller one:
halved when the mantissa is the least one of its binade. -/
structure Binary where
  mantissa : Nat
  exponent : Int
  halvedBelow : Bool

/-- The least mantissa of a number of full precision, with 53 bits. -/
def leastMantissa : Nat := 0x10000000000000

/-- The mantissa and exponent of a finite number, its sign left out. -/
def Binary.ofFloat (x : Float) : Binary :=
  let bits : Nat := x.toBits.toNat
  let fraction : Nat := bits % leastMantissa
  let biased : Nat := bits / leastMantissa % 2048
  if biased = 0 then ⟨fraction, -1074, false⟩
  else ⟨leastMantissa + fraction, (biased : Int) - 1075, fraction = 0 && biased > 1⟩

/-- How many decimal digits a number is written with. -/
def digitCount (n : Nat) : Nat := (Nat.toDigits 10 n).length

/-- The exponent of the leading decimal digit of `numerator / denominator`. -/
def leadingExponent (numerator denominator : Nat) : Int :=
  if denominator ≤ numerator then (digitCount (numerator / denominator) : Int) - 1
  else -(digitCount ((denominator - 1) / numerator) : Int)

/-- The neighbour of a number on the grid of multiples of `10 ^ exponent` that reads back as the
number: the nearer one where both do, and the larger one where both are equally near. Quarters of
the mantissa's unit and steps of the grid are brought to a common measure first. -/
def onGrid? (x : Binary) (exponent : Int) : Option Decimal :=
  let quarter := x.exponent - 2
  let step := Nat.pow 10 exponent.toNat * Nat.pow 2 (-quarter).toNat
  let unit := Nat.pow 2 quarter.toNat * Nat.pow 10 (-exponent).toNat
  let value := 4 * x.mantissa * unit
  let low := value - (if x.halvedBelow then 1 else 2) * unit
  let high := value + 2 * unit
  -- The ends of the interval round to the even mantissa.
  let inside := fun point : Nat =>
    if x.mantissa % 2 = 0 then low ≤ point && point ≤ high else low < point && point < high
  let below := value / step
  let above := below + 1
  let nearerBelow := 2 * (value - below * step) < step
  if inside (below * step) && (nearerBelow || !inside (above * step)) then some ⟨below, exponent⟩
  else if inside (above * step) then some ⟨above, exponent⟩
  else none

/-- The same number without trailing zeros in its significand, up to a number of zeros. -/
def dropZeros : Nat → Decimal → Decimal
  | 0, x => x
  | n + 1, x =>
    if x.significand ≠ 0 ∧ x.significand % 10 = 0 then
      dropZeros n ⟨x.significand / 10, x.exponent + 1⟩
    else x

/-- The decimal with the fewest digits that reads back as a positive number; seventeen digits
always suffice. -/
def shortest (x : Binary) : Decimal :=
  let leading :=
    leadingExponent (x.mantissa * Nat.pow 2 x.exponent.toNat) (Nat.pow 2 (-x.exponent).toNat)
  let found := (List.range 17).findSome? fun (extra : Nat) => onGrid? x (leading - (extra : Int))
  dropZeros 17 (found.getD ⟨0, 0⟩)

end Decimal

end CardRules
