/-!
Numeric properties of cards. A property has a base value and modifiers, at most one from each
source, in the order in which the sources first came.
-/

namespace CardRules

/-- How a modifier counts: added to the base, or as a share of the sum. -/
inductive ModifierKind where
  | flat
  | percent
deriving DecidableEq

/-- The name of a kind of modifier. -/
def ModifierKind.name : ModifierKind → String
  | .flat => "flat"
  | .percent => "percent"

/-- A change of a property's value that a named source is responsible for. -/
structure Modifier where
  source : String
  kind : ModifierKind := .flat
  amount : Float
deriving DecidableEq

/-- A named number with modifiers. -/
structure Property where
  name : String
  base : Float
  modifiers : List Modifier := []
deriving DecidableEq

/-- Puts a modifier in the place of the first one from the same source, or at the end. -/
def Modifier.putInto (modifier : Modifier) : List Modifier → List Modifier
  | [] => [modifier]
  | old :: rest =>
    if old.source = modifier.source then modifier :: rest else old :: modifier.putInto rest

namespace Property

/-- The property with a modifier, which takes the place of one from the same source. -/
def addModifier (property : Property) (modifier : Modifier) : Property :=
  { property with modifiers := modifier.putInto property.modifiers }

/-- Whether a source modifies the property. -/
def hasModifierFrom (property : Property) (source : String) : Bool :=
  property.modifiers.any (·.source = source)

/-- The property without the modifiers of a source. -/
def removeModifier (property : Property) (source : String) : Property :=
  { property with modifiers := property.modifiers.filter (·.source ≠ source) }

/-- The sum of the amounts of a kind, in the order of the modifiers. -/
def total (property : Property) (kind : ModifierKind) : Float :=
  property.modifiers.foldl (fun sum m => if m.kind = kind then sum + m.amount else sum) 0

/-- The value in effect: base and flat amounts, raised by the percent amounts. -/
def value (property : Property) : Float :=
  (property.base + property.total .flat) * (1 + property.total .percent)

end Property

/-- A change of a property. -/
inductive PropertyChange where
  | addModifier (modifier : Modifier)
  | removeModifier (source : String)
  | addBase (delta : Float)
  | setBase (value : Float)

/-- Carries out a change. -/
def PropertyChange.apply (change : PropertyChange) (property : Property) : Property :=
  match change with
  | .addModifier modifier => property.addModifier modifier
  | .removeModifier source => property.removeModifier source
  | .addBase delta => { property with base := property.base + delta }
  | .setBase value => { property with base := value }

end CardRules
