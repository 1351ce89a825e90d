/-!
Readers of text: functions that take characters off the front of a text and give a result, or refuse
the text. A reader that refuses leaves the choice open to another one.
-/

namespace CardRules.Text

/-- A reader of some result. -/
abbrev Parser (α : Type) := StateT (List Char) Option α

namespace Parser

/-- The next character, left where it is. -/
def peek? : Parser (Option Char) := fun text => some (text.head?, text)

/-- Whether what comes next begins with these characters, left where they are. -/
def startsWith (word : String) : Parser Bool := fun text => some (word.toList.isPrefixOf text, text)

/-- Reads a character with a property. -/
def satisfy (p : Char → Bool) : Parser Char
  | c :: rest => if p c then some (c, rest) else none
  | [] => none

/-- Reads just this character. -/
def char (c : Char) : Parser Unit := discard (satisfy (· = c))

/-- Reads just these characters. -/
def word (word : String) : Parser Unit := word.toList.forM char

/-- Reads the characters in front that have a property, possibly none. -/
def takeWhile (p : Char → Bool) : Parser (List Char) := fun text =>
  some (text.takeWhile p, text.dropWhile p)

/-- Reads so many characters with a property. -/
def exactly (count : Nat) (p : Char → Bool) : Parser (List Char) :=
  (List.range count).mapM fun _ => satisfy p

/-- Reads as often as it goes, at most once for each character of a bound. -/
def manyWithin {α : Type} (parser : Parser α) : List Char → Parser (List α)
  | [] => pure []
  | _ :: bound => do
    match ← optional parser with
    | some a => return a :: (← manyWithin parser bound)
    | none => return []

/-- Reads as often as it goes. The text is its own bound: a reader that takes a character each time
is done before the bound is used up. -/
def many {α : Type} (parser : Parser α) : Parser (List α) := fun text =>
  manyWithin parser text text

/-- Reads one or more times with something in between. -/
def separated {α : Type} (parser : Parser α) (separator : Parser Unit) : Parser (List α) := do
  let first ← parser
  let rest ← many (separator *> parser)
  return first :: rest

/-- Nothing is left to read. -/
def atEnd : Parser Unit
  | [] => some ((), [])
  | _ :: _ => none

/-- The result for a whole text. -/
def readAll {α : Type} (parser : Parser α) (text : String) : Option α :=
  (parser <* atEnd).run' text.toList

end Parser

/-- The value of a digit in bases up to sixteen, in either case. -/
def digitValue (c : Char) : Nat :=
  if c.isDigit then c.toNat - '0'.toNat
  else if 'a' ≤ c && c ≤ 'f' then c.toNat - 'a'.toNat + 10
  else c.toNat - 'A'.toNat + 10

/-- Whether a character is a hexadecimal digit. -/
def isHexDigit (c : Char) : Bool :=
  c.isDigit || ('a' ≤ c && c ≤ 'f') || ('A' ≤ c && c ≤ 'F')

/-- The number that digits of a base stand for. -/
def numberOf (base : Nat) (digits : List Char) : Nat :=
  digits.foldl (fun n c => n * base + digitValue c) 0

/-- The character of a code, if the code is that of a character. -/
def charOf? (code : Nat) : Option Char :=
  if h : code.isValidChar then some (Char.ofNatAux code h) else none

end CardRules.Text
