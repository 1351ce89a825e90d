import CardRules.Document.Cards
import CardRules.Rule

/-!
Readings of rules and what they consist of. Predicates and callbacks cannot be written in a
document.
-/

namespace CardRules.Document

/-- A kind of event. -/
def eventKind? (reading : Reading) : Data → Option EventKind :=
  reading.choice? (EventKind.all.map fun kind => (kind.name, kind))

/-- A comparison. -/
def comparison? (reading : Reading) : Data → Option Comparison :=
  reading.choice? (Comparison.all.map fun comparison => (comparison.name, comparison))

/-- A scope. -/
def scope? (reading : Reading) : Data → Option Scope :=
  reading.choice?
    ([.matched, .children, .descendants, .source, .container].map fun scope : Scope =>
      (scope.name, scope))

/-- A filter. -/
def filter? (reading : Reading) (data : Data) : Option Filter :=
  match alternative? data with
  | some ("none", argument) => if argument.all reading.isVoid then some .none else none
  | some ("tag", some argument) => (text? argument).map .tag
  | some ("id", some argument) => (text? argument).map .id
  | some ("category", some argument) => (text? argument).map .category
  | _ => none

/-- A selector; every field has a default. -/
def selector? (reading : Reading) (data : Data) : Option Selector := do
  let fields ← reading.fields? ["scope", "filter", "take", "max_depth"] data
  return {
    scope := ← fields.optional? "scope" .matched (scope? reading)
    filter := ← fields.optional? "filter" .none (filter? reading)
    take := ← fields.optional? "take" none (maybe? (natOfBits? 64))
    maxDepth := ← fields.optional? "max_depth" none (maybe? (natOfBits? 64)) }

/-- A change of a property. -/
def propertyChange? (reading : Reading) (data : Data) : Option PropertyChange :=
  match alternative? data with
  | some ("add_modifier", some argument) => (modifier? reading argument).map .addModifier
  | some ("remove_modifier", some argument) => (text? argument).map .removeModifier
  | some ("add_base", some argument) => (float? argument).map .addBase
  | some ("set_base", some argument) => (float? argument).map .setBase
  | _ => none

/-- A requirement with at most so many others inside one another. -/
def requirementWithin? (reading : Reading) : Nat → Data → Option Requirement
  | 0, _ => none
  | depth + 1, data => do
    let (kind, body) ← reading.kind? ["select", "property", "chance", "not"] data
    let inside := reading.inside
    match kind with
    | "select" =>
      let fields ← inside.fields? ["selector", "min", "max", "collect"] body
      return .select (← fields.optional? "selector" {} (selector? inside))
        (← fields.optional? "min" 1 (natOfBits? 64))
        (← fields.optional? "max" none (maybe? (natOfBits? 64)))
        (← fields.optional? "collect" true bool?)
    | "property" =>
      let fields ← inside.fields? ["selector", "name", "comparison", "value"] body
      return .property (← fields.optional? "selector" {} (selector? inside))
        (← fields.required? "name" text?)
        (← fields.required? "comparison" (comparison? inside))
        (← fields.required? "value" float?)
    | "chance" =>
      let fields ← inside.fields? ["probability"] body
      return .chance (← fields.required? "probability" float?)
    | _ =>
      let fields ← inside.fields? ["requirement"] body
      return .not (← fields.required? "requirement" (requirementWithin? inside depth))

/-- A requirement. -/
def requirement? (reading : Reading) (data : Data) : Option Requirement :=
  requirementWithin? reading data.nesting data

/-- An effect. -/
def effect? (reading : Reading) (data : Data) : Option Effect := do
  let (kind, body) ← reading.kind?
    ["create", "remove", "modify_property", "add_tag", "remove_tag", "signal"] data
  let inside := reading.inside
  let selector := fun fields : Fields => fields.optional? "selector" {} (selector? inside)
  match kind with
  | "create" =>
    let fields ← inside.fields? ["templates", "count"] body
    return .create (← fields.required? "templates" (listOf? text?))
      (← fields.optional? "count" 1 (natOfBits? 64))
  | "remove" =>
    let fields ← inside.fields? ["selector"] body
    return .remove (← selector fields)
  | "modify_property" =>
    let fields ← inside.fields? ["selector", "property", "operation"] body
    return .changeProperty (← selector fields)
      (← fields.optional? "property" none (maybe? text?))
      (← fields.required? "operation" (propertyChange? inside))
  | "add_tag" =>
    let fields ← inside.fields? ["selector", "tag"] body
    return .addTag (← selector fields) (← fields.required? "tag" text?)
  | "remove_tag" =>
    let fields ← inside.fields? ["selector", "tag"] body
    return .removeTag (← selector fields) (← fields.required? "tag" text?)
  | _ =>
    let fields ← inside.fields? ["selector", "id", "payload"] body
    return .signal (← selector fields) (← fields.required? "id" text?)
      (← fields.optional? "payload" none (maybe? fun data => some data.finite))

/-- The options of a rule. -/
def policy? (reading : Reading) (data : Data) : Option RulePolicy := do
  let fields ← reading.fields? ["distinct_matched", "stop_on_success"] data
  return ⟨← fields.optional? "distinct_matched" false bool?,
    ← fields.optional? "stop_on_success" false bool?⟩

/-- A rule. -/
def rule? (reading : Reading) (data : Data) : Option Rule := do
  let fields ← reading.fields?
    ["name", "trigger", "custom_id", "container_distance", "max_depth", "priority",
      "requirements", "effects", "policy"] data
  return {
    name := ← fields.required? "name" text?
    trigger := ← fields.required? "trigger" (eventKind? reading)
    customId := ← fields.optional? "custom_id" none (maybe? text?)
    containerDistance := ← fields.optional? "container_distance" 0 int32?
    maxDepth := ← fields.optional? "max_depth" none (maybe? (natOfBits? 64))
    priority := ← fields.optional? "priority" 0 int32?
    requirements := ← fields.optional? "requirements" [] (listOf? (requirement? reading))
    effects := ← fields.optional? "effects" [] (listOf? (effect? reading))
    policy := ← fields.optional? "policy" {} (policy? reading) }

/-- The rules of a set; a document without the field holds none. -/
def rules? (reading : Reading) (data : Data) : Option (List Rule) := do
  let fields ← reading.fields? ["rules"] data
  fields.optional? "rules" [] (listOf? (rule? reading))

end CardRules.Document
