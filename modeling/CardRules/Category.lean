import CardRules.Text.Blank

/-!
The categories of cards and their names.
-/

namespace CardRules

/-- What kind of thing a card stands for. -/
inductive Category where
  | item
  | tool
  | resource
  | creature
  | building
  | location
  | status
deriving DecidableEq, Inhabited

namespace Category

/-- Every category. -/
def all : List Category := [.item, .tool, .resource, .creature, .building, .location, .status]

/-- The name of a category. -/
def name : Category → String
  | .item => "item"
  | .tool => "tool"
  | .resource => "resource"
  | .creature => "creature"
  | .building => "structure"
  | .location => "location"
  | .status => "status"

/-- The category with exactly this name. -/
def ofName? (name : String) : Option Category := all.find? (·.name = name)

/-- The category that a text names, whatever its case and the white space around it. Lower case is
that of ASCII: no letter of a category's name is the lower case of a letter outside ASCII. -/
def ofText? (text : String) : Option Category :=
  ofName? (String.ofList ((Text.trim text).toList.map Char.toLower))

theorem ofName?_name (category : Category) : ofName? category.name = some category := by
  cases category <;> decide

end Category

end CardRules
