import CardRules.Data
import CardRules.Decimal.Nearest
import CardRules.Text.Parser

/-!
JSON texts as data. A number is whole if it is written without fraction and exponent and fits into 64
bits; any other number is read as the floating-point number nearest to it. Of two entries of an
object with the same name the later one counts.
-/

namespace CardRules.Document.Json

open Text Text.Parser

/-- Blanks between tokens. -/
def space : Parser Unit := discard (takeWhile fun c => c = ' ' || c = '\t' || c = '\n' || c = '\r')

/-- A token and the blanks after it. -/
def token {α : Type} (parser : Parser α) : Parser α := parser <* space

/-- Four hexadecimal digits. -/
def codeUnit : Parser Nat := numberOf 16 <$> exactly 4 isHexDigit

/-- The character after a backslash and the letter u: one code unit, or two that form a pair. -/
def unicodeEscape : Parser Char := do
  let first ← codeUnit
  if 0xD800 ≤ first && first < 0xDC00 then
    word "\\u"
    let second ← codeUnit
    if 0xDC00 ≤ second && second < 0xE000 then
      charOf? (0x10000 + (first - 0xD800) * 0x400 + (second - 0xDC00))
    else failure
  else charOf? first

/-- What follows a backslash. -/
def escape : Parser Char := do
  match ← satisfy fun _ => true with
  | '"' => return '"'
  | '\\' => return '\\'
  | '/' => return '/'
  | 'b' => return '\x08'
  | 'f' => return '\x0c'
  | 'n' => return '\n'
  | 'r' => return '\r'
  | 't' => return '\t'
  | 'u' => unicodeEscape
  | _ => failure

/-- A character of a text. -/
def textChar : Parser Char := do
  let c ← satisfy fun c => c ≠ '"' && c ≥ ' '
  if c = '\\' then escape else return c

/-- A text in quotes. -/
def text : Parser String := do
  char '"'
  let chars ← many textChar
  char '"'
  return String.ofList chars

/-- The digits of a number. -/
def digits : Parser (List Char) := do
  let first ← satisfy Char.isDigit
  return first :: (← takeWhile Char.isDigit)

/-- The part of a number before the point: no zero stands in front of other digits. -/
def wholePart : Parser (List Char) := do
  if (← peek?) = some '0' then
    char '0'
    return ['0']
  else digits

/-- The exponent of a number. -/
def exponent : Parser Int := do
  discard (satisfy fun c => c = 'e' || c = 'E')
  let sign ← optional (satisfy fun c => c = '+' || c = '-')
  let magnitude := numberOf 10 (← digits)
  return if sign = some '-' then -(magnitude : Int) else magnitude

/-- A number. -/
def number : Parser Data := do
  let negative := (← optional (char '-')).isSome
  let whole ← wholePart
  let fraction ← optional (char '.' *> digits)
  let power ← optional exponent
  let n := numberOf 10 whole
  let places := fraction.getD []
  let float := Data.float <| Decimal.toSignedFloat negative <|
    .ofParts n (numberOf 10 places) places.length (power.getD 0)
  -- A negative zero is not a whole number: the sign would be lost.
  if fraction.isSome || power.isSome then return float
  else if negative then
    return if n = 0 || n > 0x8000000000000000 then float else .int (-n)
  else return if n < 0x10000000000000000 then .int n else float

/-- Puts an entry behind others, in place of an earlier one with the same name. -/
def putLast (entries : List (String × Data)) (entry : String × Data) : List (String × Data) :=
  entries.filter (·.1 ≠ entry.1) ++ [entry]

/-- Items with commas in between, up to a closing bracket; the opening one has been read. -/
def itemsUntil {α : Type} (close : Char) (item : Parser α) : Parser (List α) := do
  if (← peek?) = some close then
    token (char close)
    return []
  else
    let items ← separated item (token (char ','))
    token (char close)
    return items

/-- A value that nests at most so deep. -/
def value : Nat → Parser Data
  | 0 => failure
  | nesting + 1 => do
    match ← peek? with
    | some 'n' => token (word "null") *> pure .null
    | some 't' => token (word "true") *> pure (.bool true)
    | some 'f' => token (word "false") *> pure (.bool false)
    | some '"' => Data.text <$> token text
    | some '[' =>
      token (char '[')
      Data.list <$> itemsUntil ']' (value nesting)
    | some '{' =>
      token (char '{')
      let entries ← itemsUntil '}' do
        let name ← token text
        token (char ':')
        return (name, ← value nesting)
      return .table (entries.foldl putLast [])
    | _ => token number

/-- Reads a JSON text. No value nests deeper than the text is long. -/
def read? (source : String) : Option Data :=
  (space *> value (source.length + 1)).readAll source

end CardRules.Document.Json
