import CardRules.Config
import CardRules.Forest.Links
import CardRules.Random.Generator
import CardRules.Registry
import CardRules.Rule
import CardRules.Template.Factory

/-!
The engine: a forest of cards, the registry, the rules, and the queues of events. Here are its
state and the computations on it.

The engine keeps a journal of what it did. The journal decides nothing; it is where the history of
a run can be read off its last state.
-/

namespace CardRules

/-- A line of the engine's journal. -/
inductive Entry where
  /-- The scheduler took an event on, in the main queue or in the deferred one. -/
  | queued (raised : Raised) (deferred : Bool)
  /-- A pump took an event from the main queue. -/
  | taken (raised : Raised)
  /-- A rule began to run; `depth` counts the events being processed. -/
  | fired (depth : Nat) (context : RuleContext)
  /-- An external listener, which keeps a note, heard an event. -/
  | heard (listener : ListenerId) (note : Data) (raised : Raised)
  /-- A program made a note. -/
  | noted (note : Data)

/-- The state of an engine. Events wait in `queue`; those raised while another event is being
processed wait in `deferred` until the outermost one is done. `depth` counts the events being
processed, one inside the other. `listeners` is the table of external listeners and their notes, and
`subscriptions` counts how often one of them has subscribed. -/
structure Engine where
  config : Config
  generator : Random.Generator
  forest : Forest := ∅
  registry : Registry := ∅
  rules : List Rule := []
  factory : Option Factory := none
  listeners : List (ListenerId × Data) := []
  subscriptions : Nat := 0
  queue : List Raised := []
  deferred : List Raised := []
  pumping : Bool := false
  depth : Nat := 0
  pumpError : Option Error := none
  journal : Array Entry := #[]

namespace Engine

/-- An engine without cards and rules. -/
def new (config : Config) (factory : Option Factory := none) : Engine :=
  { config, generator := .ofSeed config.seed, factory }

/-- Writes a line into the journal. -/
def record (engine : Engine) (entry : Entry) : Engine :=
  { engine with journal := engine.journal.push entry }

/-- Whether an event is being processed. -/
def isProcessing (engine : Engine) : Bool := engine.depth > 0

/-- Whether neither a pump nor an event is under way. -/
def isIdle (engine : Engine) : Bool := !engine.pumping && engine.depth == 0

/-- The rules for a kind of event, in the order of registration. -/
def rulesFor (engine : Engine) (kind : EventKind) : List Rule :=
  engine.rules.filter (·.trigger = kind)

end Engine

/-- A computation on an engine. It ends with a value or an error, and the engine stays as it is
then; it has no outcome if callbacks nest deeper than a run allows. -/
abbrev EngineM (α : Type) := ExceptT Error (StateT Engine Option) α

namespace EngineM

/-- Runs a computation. -/
def start {α : Type} (action : EngineM α) (engine : Engine) :
    Option (Except Error α × Engine) :=
  (ExceptT.run action).run engine

/-- A computation given by what it does to each engine. -/
def ofStart {α : Type} (start : Engine → Option (Except Error α × Engine)) : EngineM α :=
  ExceptT.mk start

/-- The outcome of a computation as a value; an error no longer ends anything. -/
def outcome {α : Type} (action : EngineM α) : EngineM (Except Error α) :=
  ofStart fun engine => (action.start engine).map fun (result, after) => (.ok result, after)

/-- A computation followed by a change of the engine, also when it ends with an error. -/
def thenAlways {α : Type} (action : EngineM α) (change : Engine → Engine) : EngineM α :=
  ofStart fun engine => (action.start engine).map fun (result, after) => (result, change after)

/-- The computation that never has an outcome. -/
def never {α : Type} : EngineM α := ofStart fun _ => none

/-- Repeats a computation so many times, up to the first error. -/
def times (action : EngineM Unit) : Nat → EngineM Unit
  | 0 => pure ()
  | n + 1 => do
    action
    times action n

end EngineM

end CardRules
