import CardRules.Text.Parser

/-!
TOML dates and times. They are checked against the calendar and the clock, and are known afterwards by
their text in one normal spelling: a capital T between date and time, at most nine places of a
second without trailing zeros, and a capital Z or a sign with hours and minutes for the offset.
-/

namespace CardRules.Document.Toml

open CardRules.Text CardRules.Text.Parser

/-- So many digits, for a number within bounds. -/
def boundedDigits (count least most : Nat) : Parser (List Char) := do
  let digits ← exactly count Char.isDigit
  let n := numberOf 10 digits
  if least ≤ n && n ≤ most then return digits else failure

/-- The number of days of a month. -/
def daysIn (year month : Nat) : Nat :=
  if month = 2 then
    if year % 4 = 0 && (year % 100 ≠ 0 || year % 400 = 0) then 29 else 28
  else if month ∈ [4, 6, 9, 11] then 30
  else 31

/-- A date. -/
def date : Parser (List Char) := do
  let year ← exactly 4 Char.isDigit
  char '-'
  let month ← boundedDigits 2 1 12
  char '-'
  let day ← boundedDigits 2 1 (daysIn (numberOf 10 year) (numberOf 10 month))
  return year ++ '-' :: month ++ '-' :: day

/-- The places of a second after the point; those after the ninth are cut off. -/
def secondPlaces : Parser (List Char) := do
  char '.'
  let first ← satisfy Char.isDigit
  let places := (first :: (← takeWhile Char.isDigit)).take 9
  let kept := (places.reverse.dropWhile (· = '0')).reverse
  return if kept.isEmpty then [] else '.' :: kept

/-- A time of day. A minute may have a leap second. -/
def timeOfDay : Parser (List Char) := do
  let hour ← boundedDigits 2 0 23
  char ':'
  let minute ← boundedDigits 2 0 59
  char ':'
  let second ← boundedDigits 2 0 60
  let places ← optional secondPlaces
  return hour ++ ':' :: minute ++ ':' :: second ++ places.getD []

/-- The offset of universal time itself. -/
def zeroOffset : Parser (List Char) := do
  discard (satisfy fun c => c = 'Z' || c = 'z')
  return ['Z']

/-- An offset in hours and minutes. A zero one is positive. -/
def clockOffset : Parser (List Char) := do
  let sign ← satisfy fun c => c = '+' || c = '-'
  let hours ← boundedDigits 2 0 23
  char ':'
  let minutes ← boundedDigits 2 0 59
  let isZero := numberOf 10 hours = 0 && numberOf 10 minutes = 0
  return (if isZero then '+' else sign) :: hours ++ ':' :: minutes

/-- A date, a time of day, or both, and then perhaps with an offset. -/
def moment : Parser String := do
  match ← optional date with
  | none => String.ofList <$> timeOfDay
  | some date =>
    let rest ← optional do
      discard (satisfy fun c => c = 'T' || c = 't' || c = ' ')
      let time ← timeOfDay
      let zone ← optional (zeroOffset <|> clockOffset)
      return 'T' :: time ++ zone.getD []
    return String.ofList (date ++ rest.getD [])

end CardRules.Document.Toml
