import CardRules.Card

/-!
Factories make cards from template ids. The usual one reads a catalog.
-/

namespace CardRules

/-- A maker of cards: the card of an id it knows, and the ids of the parts that a card of an id is
assembled from. -/
structure Factory where
  make? : String → Option Card
  parts : String → List String := fun _ => []

namespace Factory

/-- The factory that makes the cards of a catalog. -/
def ofCatalog (catalog : Catalog) : Factory where
  make? id := (catalog.find? id).map Card.ofTemplate
  parts id := ((catalog.find? id).map (·.parts)).getD []

/-- Makes a card and reads it as something else, if it is such a thing. -/
def makeAs? {α : Type} (factory : Factory) (read? : Card → Option α) (id : String) : Option α :=
  (factory.make? id).bind read?

end Factory

end CardRules
