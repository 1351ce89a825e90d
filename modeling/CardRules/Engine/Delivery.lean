import CardRules.Engine.State

/-!
How events reach those who listen. The outbox of the forest is emptied, and each event goes to
the listeners of its card in the order of their subscription: the scheduler puts it in a queue, an
external listener hears it.
-/

namespace CardRules.Engine

/-- The scheduler takes an event on: for later if an event is being processed, and at the end of
the main queue otherwise. -/
def enqueue (engine : Engine) (raised : Raised) : Engine :=
  if engine.isProcessing then
    { engine with deferred := engine.deferred ++ [raised] }.record (.queued raised true)
  else
    { engine with queue := engine.queue ++ [raised] }.record (.queued raised false)

/-- Hands an event to one listener. A listener that was dropped from the table hears nothing. -/
def hand (raised : Raised) (engine : Engine) : Listener → Engine
  | .scheduler => engine.enqueue raised
  | .external id =>
    match engine.listeners.find? (·.1 = id) with
    | some (_, note) => engine.record (.heard id note raised)
    | none => engine

/-- Hands an event to all listeners of its card. -/
def announce (engine : Engine) (raised : Raised) : Engine :=
  match engine.forest.get? raised.source with
  | some card => card.listeners.foldl (hand raised) engine
  | none => engine

/-- Empties the outbox, handing out its events in order. -/
def deliver (engine : Engine) : Engine :=
  engine.forest.outbox.foldl announce { engine with forest := engine.forest.emptied }

end CardRules.Engine
