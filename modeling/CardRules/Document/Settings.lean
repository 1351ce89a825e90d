import CardRules.Config
import CardRules.Document.Reading

/-!
The reading of an engine's settings. Every field has a default.
-/

namespace CardRules.Document

/-- The settings of an engine. -/
def config? (reading : Reading) (data : Data) : Option Config := do
  let fields ← reading.fields?
    ["rule_selection", "execution", "max_events_per_pump", "auto_pump", "seed"] data
  let orders := [RuleOrder.registration, .priority].map fun order => (order.name, order)
  let ways := [Execution.firstMatch, .allMatches].map fun way => (way.name, way)
  let default : Config := {}
  return {
    ruleOrder := ← fields.optional? "rule_selection" default.ruleOrder (reading.choice? orders)
    execution := ← fields.optional? "execution" default.execution (reading.choice? ways)
    maxEventsPerPump :=
      ← fields.optional? "max_events_per_pump" default.maxEventsPerPump (natOfBits? 64)
    autoPump := ← fields.optional? "auto_pump" default.autoPump bool?
    seed := ← fields.optional? "seed" default.seed fun data =>
      (natOfBits? 64 data).map UInt64.ofNat }

end CardRules.Document
