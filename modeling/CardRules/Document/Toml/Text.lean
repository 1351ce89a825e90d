import CardRules.Text.Parser

/-!
The lexical ground of TOML: blanks, line ends, comments, and texts in their four spellings.
-/

namespace CardRules.Document.Toml

open CardRules.Text CardRules.Text.Parser

/-- A space or a tab. -/
def isSpace (c : Char) : Bool := c = ' ' || c = '\t'

/-- A character that may stand in a comment: no control character but the tab. -/
def isPrintable (c : Char) : Bool := c = '\t' || (' ' ≤ c && c ≠ '\x7f')

/-- Spaces and tabs. -/
def spaces : Parser Unit := discard (takeWhile isSpace)

/-- The end of a line, with or without a carriage return. -/
def lineEnd : Parser Unit := char '\n' <|> word "\r\n"

/-- A comment, up to the end of its line. -/
def comment : Parser Unit := do
  char '#'
  discard (takeWhile isPrintable)

/-- What may follow a statement on its line, and the end of the line or of the text. -/
def restOfLine : Parser Unit := do
  spaces
  discard (optional comment)
  lineEnd <|> atEnd

/-- Blanks, line ends and whole comments, as they may stand between the items of a list. -/
def blanksAndComments : Parser Unit :=
  discard (many (discard (satisfy isSpace) <|> lineEnd <|> (comment *> lineEnd)))

/-! ## Texts -/

/-- A character with the code that so many hexadecimal digits give. -/
def codedChar (digits : Nat) : Parser Char := do
  charOf? (numberOf 16 (← exactly digits isHexDigit))

/-- A backslash and what it stands for together with the next characters. -/
def escape : Parser Char := do
  char '\\'
  match ← satisfy fun _ => true with
  | 'b' => return '\x08'
  | 't' => return '\t'
  | 'n' => return '\n'
  | 'f' => return '\x0c'
  | 'r' => return '\r'
  | '"' => return '"'
  | '\\' => return '\\'
  | 'u' => codedChar 4
  | 'U' => codedChar 8
  | _ => failure

/-- A text on one line between quotation marks. -/
def basicText : Parser (List Char) := do
  char '"'
  let chars ← many (escape <|> satisfy fun c => isPrintable c && c ≠ '"' && c ≠ '\\')
  char '"'
  return chars

/-- A text on one line between apostrophes, where a backslash stands for itself. -/
def literalText : Parser (List Char) := do
  char '\''
  let chars ← takeWhile fun c => isPrintable c && c ≠ '\''
  char '\''
  return chars

/-- A line end within a text, whichever way it is written. -/
def lineEndIn : Parser (List Char) := lineEnd *> pure ['\n']

/-- A backslash at the end of a line: it and all blanks and line ends up to the next other character
stand for nothing. -/
def joinedLines : Parser (List Char) := do
  char '\\'
  spaces
  lineEnd
  discard (many (discard (satisfy isSpace) <|> lineEnd))
  return []

/-- One or two quotes that belong to a text of several lines, because no third follows. -/
def innerQuotes (quote : Char) : Parser (List Char) := fun text =>
  let quotes := text.takeWhile (· = quote)
  if 1 ≤ quotes.length && quotes.length ≤ 2 then some (quotes, text.drop quotes.length) else none

/-- The end of a text of several lines: three quotes, with one or two more in front that still
belong to the text. -/
def closingQuotes (quote : Char) : Parser (List Char) := fun text =>
  let count := (text.takeWhile (· = quote)).length
  if count < 3 then none
  else
    -- Of more than five quotes the last ones stand outside the text.
    let inner := min (count - 3) 2
    some (List.replicate inner quote, text.drop (inner + 3))

/-- A text of several lines, given its quotes and what it consists of besides. A line end right
after the opening quotes does not belong to it. -/
def linesOfText (quote : Char) (piece : Parser (List Char)) : Parser (List Char) := do
  word (String.ofList [quote, quote, quote])
  discard (optional lineEnd)
  let pieces ← many (piece <|> innerQuotes quote)
  return pieces.flatten ++ (← closingQuotes quote)

/-- A text of several lines between triple quotation marks. -/
def basicLines : Parser (List Char) :=
  linesOfText '"' <|
    lineEndIn <|> joinedLines <|>
      ([·]) <$> (escape <|> satisfy fun c => isPrintable c && c ≠ '"' && c ≠ '\\')

/-- A text of several lines between triple apostrophes. -/
def literalLines : Parser (List Char) :=
  linesOfText '\'' <|
    lineEndIn <|> ([·]) <$> satisfy fun c => isPrintable c && c ≠ '\''

/-- A text in any spelling. -/
def text : Parser String := do
  let chars ←
    if ← startsWith "\"\"\"" then basicLines
    else if ← startsWith "'''" then literalLines
    else basicText <|> literalText
  return String.ofList chars

/-! ## Keys -/

/-- The most names that a dotted key may have. -/
def keyLimit : Nat := 79

/-- A character of a name without quotes. -/
def isNameChar (c : Char) : Bool := c.isAlphanum || c = '_' || c = '-'

/-- A name: without quotes, or a text on one line. -/
def name : Parser String := do
  let plain ← takeWhile isNameChar
  if plain.isEmpty then String.ofList <$> (basicText <|> literalText)
  else return String.ofList plain

/-- A key: names with dots in between. -/
def key : Parser (List String) := do
  let names ← separated (spaces *> name <* spaces) (char '.')
  if names.length ≤ keyLimit then return names else failure

end CardRules.Document.Toml
