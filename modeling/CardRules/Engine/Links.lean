import CardRules.Engine.Cards
import CardRules.Engine.Delivery

/-!
Operations that raise events. Each changes the forest and then settles: the events raised so far
are handed out. What settling does besides is a parameter, because an operation made while an event
is being processed only hands events out, while one made from outside may also pump.
-/

namespace CardRules.Engine

variable (settle : EngineM Unit)

/-- Attaches a card to another. -/
def attach (parent child : Handle) (intrinsic : Bool) : EngineM Unit := do
  let engine ← get
  let forest ← liftM (engine.forest.attach parent child intrinsic)
  set { engine with forest }
  settle

/-- Removes a child from its parent, and says whether there was something to remove. -/
def removeChild (parent child : Handle) (force : Bool) : EngineM Bool := do
  let engine ← get
  match engine.forest.remove? parent child force with
  | some forest =>
    set { engine with forest }
    settle
    return true
  | none =>
    settle
    return false

/-- Removes a card from its owner, and says whether there was something to remove. -/
def detach (child : Handle) (force : Bool) : EngineM Bool := do
  let engine ← get
  match engine.forest.detach? child force with
  | some forest =>
    set { engine with forest }
    settle
    return true
  | none =>
    settle
    return false

/-- Raises an event on a card. -/
def raise (raised : Raised) : EngineM Unit := do
  let engine ← get
  if !engine.forest.contains raised.source then throw (.unknownCard raised.source)
  set { engine with forest := engine.forest.emit raised.source raised.event }
  settle

/-- Raises a tick on every registered card, by ascending handle. All of them are raised before any
is handed out. -/
def tickAll : EngineM Unit := do
  modify fun engine =>
    { engine with
      forest := engine.registry.handles.foldl (·.emit · .tick) engine.forest }
  settle

/-- How deep the parts of a template may nest. -/
def partLimit : Nat := 8

/-- Makes a card and the cards it is assembled from, and attaches these as intrinsic children. The
first argument counts the levels of nesting that are left. Without a factory, or for an id that the
factory does not know, nothing is made. -/
def assemble : Nat → String → EngineM (Option Handle)
  | 0, id => throw (.invalidTemplate (.partsTooDeep id partLimit))
  | levels + 1, id => do
    let engine ← get
    match engine.factory with
    | none => return none
    | some factory =>
      match factory.make? id with
      | none => return none
      | some card =>
        -- The card is in the forest, and registered, before its parts are made.
        let handle := engine.forest.next
        set (engine.addCard card)
        (factory.parts id).forM fun part => do
          match ← assemble levels part with
          | some child => attach settle handle child true
          | none => pure ()
        return some handle

/-- Makes the card of a template with all its parts. -/
def createCard (id : String) : EngineM (Option Handle) := assemble settle (partLimit + 1) id

end CardRules.Engine
