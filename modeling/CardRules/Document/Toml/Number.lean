import CardRules.Data
import CardRules.Decimal.Nearest
import CardRules.Text.Parser

/-!
TOML numbers. Whole numbers have 64 bits with a sign; a floating-point number that is too large for
its format is refused.
-/

namespace CardRules.Document.Toml

open CardRules.Text CardRules.Text.Parser

/-- Digits after the first one, single underscores in between left out. -/
def digitsAfter (isDigit : Char → Bool) : List Char → List Char × List Char
  | '_' :: c :: rest =>
    if isDigit c then
      let (digits, left) := digitsAfter isDigit rest
      (c :: digits, left)
    else ([], '_' :: c :: rest)
  | c :: rest =>
    if isDigit c then
      let (digits, left) := digitsAfter isDigit rest
      (c :: digits, left)
    else ([], c :: rest)
  | [] => ([], [])

/-- One or more digits. -/
def digits (isDigit : Char → Bool) : Parser (List Char) := do
  let first ← satisfy isDigit
  return first :: (← fun text => some (digitsAfter isDigit text))

/-- A sign: whether it is a minus. -/
def sign : Parser Bool := do
  let found ← optional (satisfy fun c => c = '+' || c = '-')
  return found = some '-'

/-- A whole number, if it has at most 64 bits. -/
def wholeWithin64 (n : Int) : Parser Data :=
  if -0x8000000000000000 ≤ n ∧ n < 0x8000000000000000 then pure (.int n) else failure

/-- A whole number in a base that its first two characters name. -/
def basedWhole (start : String) (base : Nat) (isDigit : Char → Bool) : Parser Data := do
  word start
  wholeWithin64 (numberOf base (← digits isDigit))

/-- The part of a number before the point: no zero stands in front of other digits. -/
def wholePart : Parser (List Char) := do
  if (← peek?) = some '0' then
    char '0'
    return ['0']
  else digits Char.isDigit

/-- The exponent of a floating-point number. -/
def exponent : Parser Int := do
  discard (satisfy fun c => c = 'e' || c = 'E')
  let negative ← sign
  let magnitude := numberOf 10 (← digits Char.isDigit)
  return if negative then -(magnitude : Int) else magnitude

/-- A number in base ten. -/
def decimalNumber : Parser Data := do
  let negative ← sign
  let whole ← wholePart
  let fraction ← optional (char '.' *> digits Char.isDigit)
  let power ← optional exponent
  let n := numberOf 10 whole
  if fraction.isNone && power.isNone then
    wholeWithin64 (if negative then -(n : Int) else n)
  else
    let places := fraction.getD []
    let value := Decimal.toSignedFloat negative <|
      .ofParts n (numberOf 10 places) places.length (power.getD 0)
    -- A number too far below zero is taken as negative infinity.
    if value.isInf && !negative then failure else return .float value

/-- Infinity, or what is not a number. -/
def specialNumber : Parser Data := do
  let negative ← sign
  let value ← (word "inf" *> pure (Float.ofBits 0x7FF0000000000000)) <|>
    (word "nan" *> pure (Float.ofBits 0x7FF8000000000000))
  return .float (if negative then -value else value)

/-- A number in any spelling. -/
def number : Parser Data :=
  basedWhole "0x" 16 isHexDigit <|>
    basedWhole "0o" 8 (fun c => '0' ≤ c && c ≤ '7') <|>
    basedWhole "0b" 2 (fun c => c = '0' || c = '1') <|>
    decimalNumber <|> specialNumber

end CardRules.Document.Toml
