import CardRules.Engine.Process

/-!
Pumping: events are taken from the main queue and processed, oldest first. Operations made from
outside pump by themselves if the engine is set up that way.
-/

namespace CardRules.Engine

/-- Takes the oldest event from the queue. -/
def takeNext? (engine : Engine) : Option (Raised × Engine) :=
  match engine.queue with
  | [] => none
  | raised :: rest => some (raised, { engine with queue := rest }.record (.taken raised))

/-- Processes events until none is left, so many were taken, or one fails; the first argument says
how many may still be taken, the second how many were. -/
def drain (invoke : Invoker) : Nat → Nat → EngineM Nat
  | 0, count => pure count
  | left + 1, count => do
    match (← get).takeNext? with
    | none => pure count
    | some (raised, engine) =>
      -- The event is gone from the queue, whatever becomes of it.
      set engine
      process invoke raised
      drain invoke left (count + 1)

/-- Processes up to so many events and says how many were taken. While another pump or an event is
under way it does nothing. -/
def pump (invoke : Invoker) (limit : Nat) : EngineM Nat := do
  if (← get).isIdle then
    modify fun engine => { engine with pumping := true }
    (drain invoke limit 0).thenAlways fun engine => { engine with pumping := false }
  else pure 0

/-- Processes as many events as the settings allow for one pump. -/
def pumpAll (invoke : Invoker) : EngineM Nat := do
  pump invoke (← get).config.maxEventsPerPump

/-- A pump on the engine's own account: an error is kept for later, in place of one kept before. -/
def pumpQuietly (invoke : Invoker) : EngineM Unit := do
  match ← (pumpAll invoke).outcome with
  | .ok _ => pure ()
  | .error error => modify fun engine => { engine with pumpError := some error }

/-- Settling after an operation: if events were raised they are handed out, and an idle engine pumps
if it is set up to do so. -/
def settle (invoke : Invoker) : EngineM Unit := do
  if (← get).forest.outbox.isEmpty then pure ()
  else
    modify deliver
    let engine ← get
    if engine.config.autoPump && engine.isIdle then pumpQuietly invoke

end CardRules.Engine
