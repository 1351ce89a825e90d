import CardRules.Document.Toml.Moment
import CardRules.Document.Toml.Number
import CardRules.Document.Toml.Text

/-!
TOML values and statements: what a document says, line by line, before it is put together.

While a table is built it is known how it came about, because that decides what may be added to it
later: a table under a header is complete once its section ends, one on the way to a header may still
get a header of its own, and one that dotted keys made is extended by dotted keys only.
-/

namespace CardRules.Document.Toml

open CardRules.Text CardRules.Text.Parser

/-! ## Tables under construction -/

/-- How a table came about. -/
inductive Origin where
  /-- It has a header of its own, or is a value. -/
  | header
  /-- A longer header leads through it. -/
  | path
  /-- A dotted key leads through it. -/
  | dotted
deriving DecidableEq

/-- What stands under a name while a document is put together. -/
inductive Node where
  /-- A value, which nothing can be added to. -/
  | value (data : Data)
  | table (origin : Origin) (entries : List (String × Node))
  /-- The tables of an array of tables, the newest first. -/
  | tables (newestFirst : List (List (String × Node)))

/-- A table under construction: how it came about, and its entries. -/
structure Table where
  origin : Origin
  entries : List (String × Node)

namespace Table

/-- What stands under a name. -/
def find? (table : Table) (name : String) : Option Node := table.entries.lookup name

/-- Puts something under a name. -/
def put (table : Table) (name : String) (node : Node) : Table :=
  { table with entries := (name, node) :: table.entries.filter (·.1 ≠ name) }

/-- Leaves out what stands under a name. -/
def drop (table : Table) (name : String) : Table :=
  { table with entries := table.entries.filter (·.1 ≠ name) }

/-- Changes the table at the end of a path. Tables that are missing on the way are made; the way
leads through the newest table of an array of tables. A dotted key does not lead through a table
that has a header of its own. -/
def alter (origin : Origin) (change : Table → Option Table) : List String → Table → Option Table
  | [], table => change table
  | name :: rest, table =>
    match table.find? name with
    | none => do
      let sub ← alter origin change rest ⟨origin, []⟩
      return table.put name (.table sub.origin sub.entries)
    | some (.value _) => none
    | some (.tables []) => none
    | some (.tables (newest :: older)) => do
      let sub ← alter origin change rest ⟨.header, newest⟩
      return table.put name (.tables (sub.entries :: older))
    | some (.table known entries) =>
      if origin = .dotted && known = .header then none
      else do
        let sub ← alter origin change rest ⟨known, entries⟩
        return table.put name (.table sub.origin sub.entries)

/-- The table at the end of a path, an empty one if nothing is there. Values are in the way. -/
def follow : List String → Table → Option Table
  | [], table => some table
  | name :: rest, table =>
    match table.find? name with
    | none => some ⟨.path, []⟩
    | some (.value _) | some (.tables []) => none
    | some (.tables (newest :: _)) => follow rest ⟨.header, newest⟩
    | some (.table origin entries) => follow rest ⟨origin, entries⟩

/-- Puts a value under a key. The last name must be new, and the table it comes into must be the
one at hand, or have been made by dotted keys. -/
def assign (table : Table) (key : List String) (data : Data) : Option Table :=
  let way := key.dropLast
  let name := key.getLastD ""
  table.alter .dotted
    (fun target =>
      if (target.origin == .dotted) == !way.isEmpty && (target.find? name).isNone then
        some (target.put name (.value data))
      else none)
    way

end Table

mutual

/-- The data that something under construction stands for. -/
def Node.toData : Node → Data
  | .value data => data
  | .table _ entries => .table (Node.entriesToData entries)
  | .tables newestFirst => .list (Node.tablesToData newestFirst).reverse

/-- The entries of a table as data. -/
def Node.entriesToData : List (String × Node) → List (String × Data)
  | [] => []
  | (name, node) :: rest => (name, node.toData) :: Node.entriesToData rest

/-- The tables of an array as data. -/
def Node.tablesToData : List (List (String × Node)) → List Data
  | [] => []
  | entries :: rest => .table (Node.entriesToData entries) :: Node.tablesToData rest

end

/-- The data of a table. -/
def Table.toData (table : Table) : Data := .table (Node.entriesToData table.entries)

/-! ## Values -/

/-- The name of the only field of a table that stands for a date or a time. -/
def momentField : String := "$__toml_private_datetime"

/-- How deep lists and inline tables may nest. -/
def nestingLimit : Nat := 79

/-- A truth value. -/
def truth : Parser Data :=
  (word "true" *> pure (.bool true)) <|> (word "false" *> pure (.bool false))

/-- A list in brackets. There may be a comma after the last item. -/
def list (item : Parser Data) : Parser Data := do
  char '['
  let padded := blanksAndComments *> item <* blanksAndComments
  let items ← optional (separated padded (char ','))
  if items.isSome then discard (optional (char ','))
  blanksAndComments
  char ']'
  return .list (items.getD [])

/-- A key, an equals sign and a value. -/
def assignment (item : Parser Data) : Parser (List String × Data) := do
  let key ← key
  char '='
  spaces
  return (key, ← item)

/-- A table in braces, on one line. -/
def inlineTable (item : Parser Data) : Parser Data := do
  char '\x7b'
  spaces
  let assignments ← optional (separated (assignment item <* spaces) (char ','))
  spaces
  char '\x7d'
  let table ← (assignments.getD []).foldlM (fun table (key, data) => table.assign key data)
    (⟨.header, []⟩ : Table)
  return table.toData

/-- A value with at most so many lists and inline tables inside one another. -/
def value : Nat → Parser Data
  | 0 => plain
  | nesting + 1 => list (value nesting) <|> inlineTable (value nesting) <|> plain
where
  /-- A value that contains no other. -/
  plain : Parser Data :=
    Data.text <$> text <|> truth <|>
      (fun moment => .table [(momentField, .text moment)]) <$> moment <|> number

/-! ## Statements -/

/-- What a line of a document says. -/
inductive Statement where
  | assign (key : List String) (data : Data)
  /-- The lines below belong to a table. -/
  | header (path : List String)
  /-- The lines below belong to a new table at the end of an array of tables. -/
  | arrayHeader (path : List String)

/-- A header in double brackets. -/
def arrayHeader : Parser Statement := do
  word "[["
  let path ← key
  word "]]"
  return .arrayHeader path

/-- A header in single brackets. -/
def header : Parser Statement := do
  char '['
  let path ← key
  char ']'
  return .header path

/-- A line, which may be empty or hold only a comment. -/
def line : Parser (Option Statement) := do
  spaces
  match ← peek? with
  | some '#' => (comment *> (lineEnd <|> atEnd)) *> pure none
  | some '\n' | some '\r' => lineEnd *> pure none
  | some '[' =>
    let statement ← if ← startsWith "[[" then arrayHeader else header
    restOfLine
    return some statement
  | some _ =>
    let (key, data) ← assignment (value nestingLimit)
    restOfLine
    return some (.assign key data)
  | none => failure

/-- All statements of a document, which may begin with a byte order mark. -/
def statements : Parser (List Statement) := do
  discard (optional (char '\uFEFF'))
  let lines ← many line
  spaces
  atEnd
  return lines.filterMap id

end CardRules.Document.Toml
