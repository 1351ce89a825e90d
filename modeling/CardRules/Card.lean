import CardRules.Event
import CardRules.Property
import CardRules.Sorted.Set
import CardRules.Template.Catalog

/-!
Cards. A card has an identity, tags and properties of its own, links to its children and its owner,
and the listeners that hear its events. The links are changed by the forest only.
-/

namespace CardRules

/-- Who hears the events of a card. -/
inductive Listener where
  /-- The scheduler, on behalf of the rules. -/
  | scheduler
  /-- A listener from outside. -/
  | external (id : ListenerId)
deriving DecidableEq

/-- A card. `index` is its number among the cards of its id, once it was registered; `intrinsic`
holds the children that it is assembled from. -/
structure Card where
  id : String
  category : Category
  name : String := id
  index : Option Nat := none
  tags : SortedSet String := ∅
  properties : List Property := []
  children : List Handle := []
  intrinsic : SortedSet Handle := ∅
  owner : Option Handle := none
  listeners : List Listener := []
deriving DecidableEq

namespace Card

/-- The card that a template describes. -/
def ofTemplate (template : Template) : Card where
  id := template.id
  category := template.category
  name := template.name
  tags := .ofList template.tags
  properties := template.properties.map fun default => ⟨default.name, default.base, []⟩

/-- Whether nothing was done with the card yet but to describe it: it has no number, no links and
no listeners. -/
structure IsFresh (card : Card) : Prop where
  index : card.index = none
  children : card.children = []
  intrinsic : card.intrinsic = ∅
  owner : card.owner = none
  listeners : card.listeners = []

theorem isFresh_ofTemplate (template : Template) : (ofTemplate template).IsFresh :=
  ⟨rfl, rfl, rfl, rfl, rfl⟩

/-- The key of a card that has a number. -/
def key? (card : Card) : Option Key := card.index.map (Key.mk card.id)

/-! ## Tags and properties -/

/-- Whether the card has a tag. -/
def hasTag (card : Card) (tag : String) : Bool := card.tags.contains tag

/-- The card with a tag. -/
def addTag (card : Card) (tag : String) : Card := { card with tags := card.tags.insert tag }

/-- The card without a tag. -/
def removeTag (card : Card) (tag : String) : Card := { card with tags := card.tags.erase tag }

/-- The first property of a name. -/
def property? (card : Card) (name : String) : Option Property :=
  card.properties.find? (·.name = name)

/-- The card with one more property at the end, whatever its name. -/
def withProperty (card : Card) (property : Property) : Card :=
  { card with properties := card.properties ++ [property] }

/-- Changes the first property of a name. -/
def changeFirst (name : String) (change : PropertyChange) : List Property → List Property
  | [] => []
  | property :: rest =>
    if property.name = name then change.apply property :: rest
    else property :: changeFirst name change rest

/-- The card after a change of its first property of a name. -/
def changeProperty (card : Card) (name : String) (change : PropertyChange) : Card :=
  { card with properties := changeFirst name change card.properties }

/-- The card after a change of every property of a name, or of every property if no name is
given. -/
def changeProperties (card : Card) (name : Option String) (change : PropertyChange) : Card :=
  { card with
    properties := card.properties.map fun property =>
      if name.all (property.name = ·) then change.apply property else property }

/-! ## Listeners -/

/-- The card with one more listener, which hears after the others. -/
def subscribe (card : Card) (listener : Listener) : Card :=
  { card with listeners := card.listeners ++ [listener] }

/-- The card without a listener. -/
def unsubscribe (card : Card) (listener : Listener) : Card :=
  { card with listeners := card.listeners.filter (· ≠ listener) }

end Card

/-- A change of a card that leaves its identity, links and listeners alone. -/
inductive CardEdit where
  | addTag (tag : String)
  | removeTag (tag : String)
  /-- A new property, unless the card has one of that name. -/
  | addProperty (property : Property)
  /-- A change of the first property of a name. -/
  | changeProperty (name : String) (change : PropertyChange)

namespace CardEdit

/-- Whether there is something to do: a tag to add is not there yet, a tag to remove or a property
to change is there, a property to add has a new name. -/
def applies (edit : CardEdit) (card : Card) : Bool :=
  match edit with
  | .addTag tag => !card.hasTag tag
  | .removeTag tag => card.hasTag tag
  | .addProperty property => (card.property? property.name).isNone
  | .changeProperty name _ => (card.property? name).isSome

/-- Carries out an edit. -/
def apply (edit : CardEdit) (card : Card) : Card :=
  match edit with
  | .addTag tag => card.addTag tag
  | .removeTag tag => card.removeTag tag
  | .addProperty property =>
    if (card.property? property.name).isNone then card.withProperty property else card
  | .changeProperty name change => card.changeProperty name change

end CardEdit

end CardRules
