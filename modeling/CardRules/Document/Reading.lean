import CardRules.Data

/-!
How shapes are read off data: numbers within bounds, records, choices and tagged records.

A record is a table of its fields, or a list of them in order. A choice is the name of an
alternative, or a table with one entry: the name of the alternative with its argument. A tagged record
is a record with one more field, in front, for its kind. Fields that nobody asks for are
ignored.
-/

namespace CardRules.Document

/-- The formats that documents come in. -/
inductive Format where
  | json
  | toml
deriving DecidableEq

/-- How data of a format is read. A tagged record is set aside whole until its kind is known;
`tagged` says that the data stands in such a record, where the formats differ less. -/
structure Reading where
  format : Format
  tagged : Bool := false

namespace Reading

/-- The way in which the fields of a tagged record are read. -/
def inside (reading : Reading) : Reading := { reading with tagged := true }

/-- Whether a record that is given as a list may have items left over. -/
def allowsSurplus (reading : Reading) : Bool := reading.format = .toml && !reading.tagged

/-- Whether the kind of a tagged record may be given by its number. -/
def numbersKinds (reading : Reading) : Bool := reading.format = .json && reading.tagged

/-- Whether data can stand as the argument of an alternative that has none. -/
def isVoid (reading : Reading) : Data → Bool
  | .null => reading.format = .json
  | .table [] => reading.format = .toml || reading.tagged
  | .list [] => reading.format = .toml && !reading.tagged
  | _ => false

end Reading

/-! ## Plain values -/

/-- A text. -/
def text? : Data → Option String
  | .text value => some value
  | _ => none

/-- A truth value. -/
def bool? : Data → Option Bool
  | .bool value => some value
  | _ => none

/-- A number; a whole number is rounded to the nearest floating-point number. -/
def float? : Data → Option Float
  | .float value => some value
  | .int value => some (Float.ofInt value)
  | _ => none

/-- A whole number within bounds. -/
def intWithin? (least most : Int) : Data → Option Int
  | .int value => if least ≤ value ∧ value ≤ most then some value else none
  | _ => none

/-- A natural number of so many bits. -/
def natOfBits? (bits : Nat) (data : Data) : Option Nat :=
  (intWithin? 0 (Nat.pow 2 bits - 1) data).map Int.toNat

/-- A whole number of 32 bits with a sign. -/
def int32? : Data → Option Int := intWithin? (-0x80000000) 0x7FFFFFFF

/-- A list of values of one shape. -/
def listOf? {α : Type} (read : Data → Option α) : Data → Option (List α)
  | .list items => items.mapM read
  | _ => none

/-- A value that may be absent, which null says too. -/
def maybe? {α : Type} (read : Data → Option α) : Data → Option (Option α)
  | .null => some none
  | data => (read data).map some

/-! ## Records and choices -/

/-- The fields of a record, by name. -/
abbrev Fields := List (String × Data)

/-- The fields of a record whose fields have these names, in this order. -/
def Reading.fields? (reading : Reading) (names : List String) : Data → Option Fields
  | .table entries => some entries
  | .list items =>
    if items.length ≤ names.length || reading.allowsSurplus then some (names.zip items) else none
  | _ => none

/-- A field that must be there. -/
def Fields.required? {α : Type} (fields : Fields) (name : String) (read : Data → Option α) :
    Option α :=
  (fields.lookup name).bind read

/-- A field that has a default. -/
def Fields.optional? {α : Type} (fields : Fields) (name : String) (default : α)
    (read : Data → Option α) : Option α :=
  match fields.lookup name with
  | some data => read data
  | none => some default

/-- The name of an alternative and its argument, if it is written with one. -/
def alternative? : Data → Option (String × Option Data)
  | .text name => some (name, none)
  | .table [(name, argument)] => some (name, some argument)
  | _ => none

/-- A choice among named values. -/
def Reading.choice? {α : Type} (reading : Reading) (values : List (String × α)) (data : Data) :
    Option α := do
  let (name, argument) ← alternative? data
  if argument.all reading.isVoid then values.lookup name else none

/-- The kind of a tagged record, one of these, and the record without it. -/
def Reading.kind? (reading : Reading) (kinds : List String) (data : Data) :
    Option (String × Data) := do
  let (tag, body) ←
    match data with
    | .table entries => (entries.lookup "kind").map (·, data)
    | .list (tag :: items) => some (tag, .list items)
    | _ => none
  match tag with
  | .text name => if name ∈ kinds then some (name, body) else none
  | .int number =>
    if reading.numbersKinds && 0 ≤ number then (kinds[number.toNat]?).map (·, body) else none
  | _ => none

end CardRules.Document
