import CardRules.Engine.Links

/-!
What an event does: the rules for it are matched against the forest as it is, and then those that
were chosen run one after the other. Meanwhile every operation only hands events out; they wait
until the outermost event is done.
-/

namespace CardRules

/-- What a callback does in the context of the rule that runs it. -/
abbrev Invoker := CallbackName → RuleContext → EngineM Unit

namespace Engine

/-- Settling while an event is being processed: events are handed out and nothing else. -/
def settleInside : EngineM Unit := modify deliver

/-- The cards a selector finds for a rule that runs. -/
def selected (selector : Selector) (context : RuleContext) (engine : Engine) : List Handle :=
  selector.select engine.forest context.selection

/-- Changes each of a list of cards, one after the other. -/
def modifyCards (handles : List Handle) (change : Card → Card) (engine : Engine) : Engine :=
  { engine with forest := handles.foldl (·.modify · change) engine.forest }

end Engine

/-- Carries out an effect in a context. An empty selection, a missing factory, an unknown template
and an empty tag to add are all nothing to do. -/
def Effect.run (invoke : Invoker) (context : RuleContext) : Effect → EngineM Unit
  | .create templates count => do
    if (← get).factory.isSome then
      templates.forM fun id =>
        EngineM.times (do
          match ← Engine.createCard Engine.settleInside id with
          | some card => Engine.attach Engine.settleInside context.container card false
          | none => pure ()) count
  | .remove selector => do
    ((← get).selected selector context).forM fun handle =>
      discard (Engine.detach Engine.settleInside handle false)
  | .changeProperty selector name change =>
    modify fun engine =>
      engine.modifyCards (engine.selected selector context) (·.changeProperties name change)
  | .addTag selector tag =>
    if tag = "" then pure ()
    else modify fun engine =>
      engine.modifyCards (engine.selected selector context) (·.addTag tag)
  | .removeTag selector tag =>
    modify fun engine =>
      engine.modifyCards (engine.selected selector context) (·.removeTag tag)
  | .signal selector id payload => do
    ((← get).selected selector context).forM fun handle =>
      Engine.raise Engine.settleInside ⟨handle, .custom id payload⟩
  | .invoke callback => invoke callback context

/-- A rule together with the context it was gathered in. -/
structure Match where
  rule : Rule
  context : RuleContext

/-- Gathers all rules of a list for an event, in order; the matches are those whose requirements
hold. -/
def Match.gatherAll {σ : Type} (toss : Float → StateM σ Bool) (forest : Forest) (raised : Raised) :
    List Rule → StateM σ (List Match)
  | [] => pure []
  | rule :: rest => do
    let context ← rule.gather toss forest raised
    let others ← gatherAll toss forest raised rest
    pure (context.toList.map (Match.mk rule) ++ others)

/-- The matches that are to run, in the order in which they run. -/
def Config.choose (config : Config) (found : List Match) : List Match :=
  let ordered :=
    match config.ruleOrder with
    | .registration => found
    | .priority => found.mergeSort fun a b => a.rule.priority ≤ b.rule.priority
  match config.execution with
  | .firstMatch => ordered.take 1
  | .allMatches => ordered

namespace Engine

/-- The rules that react to an event, in the order of registration. -/
def candidates (engine : Engine) (event : Event) : List Rule :=
  (engine.rulesFor event.kind).filter (·.accepts event)

/-- The matches for an event on the forest as it is now; the chances drawn for them are gone. -/
def findMatches (raised : Raised) (engine : Engine) : List Match × Engine :=
  let (found, generator) :=
    (Match.gatherAll Random.Generator.chance engine.forest raised
      (engine.candidates raised.event)).run engine.generator
  (found, { engine with generator })

/-- Runs a rule in its context: its effects in order, up to the first error. -/
def runMatch (invoke : Invoker) (found : Match) : EngineM Unit := do
  modify fun engine => engine.record (.fired engine.depth found.context)
  found.rule.effects.forM (·.run invoke found.context)

/-- Runs matches in order, up to the first error and up to a rule that is to be the last one. -/
def runMatches (invoke : Invoker) : List Match → EngineM Unit
  | [] => pure ()
  | found :: rest => do
    runMatch invoke found
    -- Only a rule that ran without an error gets here.
    if found.rule.policy.stopOnSuccess then pure () else runMatches invoke rest

/-- Matches the rules for an event, and runs those that are chosen. -/
def runRules (invoke : Invoker) (raised : Raised) : EngineM Unit := do
  -- All contexts are gathered before any effect is carried out.
  let found ← modifyGet (findMatches raised)
  runMatches invoke ((← get).config.choose found)

/-- Counts one more event being processed. -/
def enter (engine : Engine) : Engine := { engine with depth := engine.depth + 1 }

/-- Counts one event less. When none is left, the deferred events move to the end of the queue. -/
def leave (engine : Engine) : Engine :=
  if engine.depth ≤ 1 then
    { engine with depth := 0, queue := engine.queue ++ engine.deferred, deferred := [] }
  else { engine with depth := engine.depth - 1 }

/-- Processes an event at once, whether or not it was queued. -/
def process (invoke : Invoker) (raised : Raised) : EngineM Unit := do
  modify enter
  (runRules invoke raised).thenAlways leave

end Engine

end CardRules
