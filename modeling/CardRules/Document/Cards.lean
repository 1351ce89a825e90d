import CardRules.Document.Reading
import CardRules.Handle
import CardRules.Property
import CardRules.Template.Catalog

/-!
Readings of what cards are described with: categories, keys, modifiers, properties, templates.
-/

namespace CardRules.Document

/-- A category, by its exact name. -/
def category? (reading : Reading) : Data → Option Category :=
  reading.choice? (Category.all.map fun category => (category.name, category))

/-- A handle: its number. -/
def handle? (data : Data) : Option Handle := (natOfBits? 32 data).map Handle.mk

/-- A key. -/
def key? (reading : Reading) (data : Data) : Option Key := do
  let fields ← reading.fields? ["id", "index"] data
  return ⟨← fields.required? "id" text?, ← fields.required? "index" (natOfBits? 32)⟩

/-- A kind of modifier. -/
def modifierKind? (reading : Reading) : Data → Option ModifierKind :=
  reading.choice? [("flat", .flat), ("percent", .percent)]

/-- A modifier; it is flat unless it says otherwise. -/
def modifier? (reading : Reading) (data : Data) : Option Modifier := do
  let fields ← reading.fields? ["source", "kind", "amount"] data
  return {
    source := ← fields.required? "source" text?
    kind := ← fields.optional? "kind" .flat (modifierKind? reading)
    amount := ← fields.required? "amount" float? }

/-- A property with its modifiers. -/
def property? (reading : Reading) (data : Data) : Option Property := do
  let fields ← reading.fields? ["name", "base_value", "modifiers"] data
  return {
    name := ← fields.required? "name" text?
    base := ← fields.required? "base_value" float?
    modifiers := ← fields.required? "modifiers" (listOf? (modifier? reading)) }

/-- A property of a template; its base is zero unless given. -/
def propertyDefault? (reading : Reading) (data : Data) : Option PropertyDefault := do
  let fields ← reading.fields? ["name", "base"] data
  return ⟨← fields.required? "name" text?, ← fields.optional? "base" 0 float?⟩

/-- A template as it is written: its category is still a text, and its name may be missing. -/
structure TemplateEntry where
  id : String
  name : Option String
  description : String
  category : String
  tags : List String
  properties : List PropertyDefault
  parts : List String

/-- A template as it is written. -/
def writtenTemplate? (reading : Reading) (data : Data) : Option TemplateEntry := do
  let fields ← reading.fields?
    ["id", "name", "description", "category", "tags", "properties", "parts"] data
  return {
    id := ← fields.required? "id" text?
    name := ← fields.optional? "name" none (maybe? text?)
    description := ← fields.optional? "description" "" text?
    category := ← fields.required? "category" text?
    tags := ← fields.optional? "tags" [] (listOf? text?)
    properties := ← fields.optional? "properties" [] (listOf? (propertyDefault? reading))
    parts := ← fields.optional? "parts" [] (listOf? text?) }

/-- The templates of a catalog, as they are written. -/
def writtenTemplates? (reading : Reading) (data : Data) : Option (List TemplateEntry) := do
  let fields ← reading.fields? ["templates"] data
  fields.required? "templates" (listOf? (writtenTemplate? reading))

end CardRules.Document
