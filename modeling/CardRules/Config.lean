/-!
The settings of an engine.
-/

namespace CardRules

/-- In which order the rules that match an event run. -/
inductive RuleOrder where
  /-- As they were registered. -/
  | registration
  /-- By ascending priority, and as they were registered among equals. -/
  | priority
deriving DecidableEq

/-- How many of the rules that match an event run. -/
inductive Execution where
  | firstMatch
  | allMatches
deriving DecidableEq

/-- The settings of an engine: how rules are chosen, the most events that one pump takes, whether
operations pump by themselves, and the seed of the chances. -/
structure Config where
  ruleOrder : RuleOrder := .priority
  execution : Execution := .allMatches
  maxEventsPerPump : Nat := 1024
  autoPump : Bool := true
  seed : UInt64 := 0
deriving DecidableEq

/-- The name of an order. -/
def RuleOrder.name : RuleOrder → String
  | .registration => "registration"
  | .priority => "priority"

/-- The name of a way of execution. -/
def Execution.name : Execution → String
  | .firstMatch => "first_match"
  | .allMatches => "all_matches"

end CardRules
