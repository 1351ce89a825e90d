/-!
Plain data: what a document holds and what a signal may carry.
-/

namespace CardRules

/-- A value of a document. Whole numbers and floating-point numbers are told apart; a table keeps
its entries in the order in which they were written. -/
inductive Data where
  | null
  | bool (value : Bool)
  | int (value : Int)
  | float (value : Float)
  | text (value : String)
  | list (items : List Data)
  | table (entries : List (String × Data))
deriving Inhabited

namespace Data

mutual

/-- How deep lists and tables stand in one another. -/
def nesting : Data → Nat
  | .list items => nestingOfItems items + 1
  | .table entries => nestingOfEntries entries + 1
  | _ => 0

/-- The deepest nesting in a list. -/
def nestingOfItems : List Data → Nat
  | [] => 0
  | item :: rest => max item.nesting (nestingOfItems rest)

/-- The deepest nesting in a table. -/
def nestingOfEntries : List (String × Data) → Nat
  | [] => 0
  | (_, item) :: rest => max item.nesting (nestingOfEntries rest)

end

mutual

/-- The data with null in the place of every number that is infinite or no number. -/
def finite : Data → Data
  | .float value => if value.isFinite then .float value else .null
  | .list items => .list (finiteItems items)
  | .table entries => .table (finiteEntries entries)
  | data => data

/-- Each item of a list, made finite. -/
def finiteItems : List Data → List Data
  | [] => []
  | item :: rest => item.finite :: finiteItems rest

/-- Each entry of a table, made finite. -/
def finiteEntries : List (String × Data) → List (String × Data)
  | [] => []
  | (name, item) :: rest => (name, item.finite) :: finiteEntries rest

end

end Data

end CardRules
