import CardRules.Forest.Walk

/-!
Selectors: which cards a requirement looks at, and which cards an effect acts on. A selector takes
the cards of a scope, keeps those that pass its filter, and cuts the rest off after a number.
-/

namespace CardRules

/-- Where the cards come from. -/
inductive Scope where
  /-- The cards that the requirements of the rule have gathered. -/
  | matched
  /-- The children of the container. -/
  | children
  /-- Everything below the container. -/
  | descendants
  /-- The card the event happened to. -/
  | source
  | container
deriving DecidableEq

/-- The name of a scope. -/
def Scope.name : Scope → String
  | .matched => "matched"
  | .children => "children"
  | .descendants => "descendants"
  | .source => "source"
  | .container => "container"

/-- Which cards of a scope are wanted. -/
inductive Filter where
  | none
  | tag (wanted : String)
  | id (wanted : String)
  /-- The category is kept as text, and a text that names none lets no card pass. -/
  | category (text : String)
deriving DecidableEq

/-- Whether a card passes. An empty tag and an empty id are mistakes and let no card pass. -/
def Filter.accepts (filter : Filter) (card : Card) : Bool :=
  match filter with
  | .none => true
  | .tag wanted => wanted ≠ "" && card.hasTag wanted
  | .id wanted => wanted ≠ "" && card.id = wanted
  | .category text => Category.ofText? text = some card.category

/-- A scope, a filter, the most cards to take, and how deep to look below the container. -/
structure Selector where
  scope : Scope := .matched
  filter : Filter := .none
  take : Option Nat := none
  maxDepth : Option Nat := none
deriving DecidableEq

/-- What a selection is made relative to. -/
structure Selection where
  source : Handle
  container : Handle
  matched : List Handle
  maxDepth : Option Nat

namespace Selector

/-- The cards of the selector's scope. A depth of the selector's own goes before the rule's. -/
def candidates (selector : Selector) (forest : Forest) (selection : Selection) : List Handle :=
  match selector.scope with
  | .matched => selection.matched
  | .children => forest.children selection.container
  | .descendants =>
    forest.descendants selection.container (selector.maxDepth.or selection.maxDepth)
  | .source => [selection.source]
  | .container => [selection.container]

/-- Whether a handle names a card that passes the filter. -/
def admits (selector : Selector) (forest : Forest) (handle : Handle) : Bool :=
  (forest.get? handle).any selector.filter.accepts

/-- The selected cards. The filter works before the cut. -/
def select (selector : Selector) (forest : Forest) (selection : Selection) : List Handle :=
  let admitted := (selector.candidates forest selection).filter (selector.admits forest)
  match selector.take with
  | some count => admitted.take count
  | none => admitted

end Selector

end CardRules
