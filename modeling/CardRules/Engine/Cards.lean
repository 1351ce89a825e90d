import CardRules.Engine.State

/-!
What can be done to an engine without any event being raised: cards come in and are registered,
rules come into the table, listeners subscribe, cards are edited.
-/

namespace CardRules.Engine

/-! ## Registration -/

/-- Whether a card is registered. -/
def isRegistered (engine : Engine) (handle : Handle) : Bool := engine.registry.contains handle

/-- The number that a card is registered with: the one it had, if that is free for its id, and the
smallest free one otherwise. -/
def numberFor (registry : Registry) (card : Card) : Nat :=
  match card.index with
  | some index => if registry.isFree ⟨card.id, index⟩ then index else registry.smallestFree card.id
  | none => registry.smallestFree card.id

/-- Registers a card and lets the scheduler listen to it. A card that is registered stays as it
is. -/
def register (engine : Engine) (handle : Handle) : Engine :=
  if engine.isRegistered handle then engine
  else
    match engine.forest.get? handle with
    | none => engine
    | some card =>
      let index := numberFor engine.registry card
      { engine with
        registry := engine.registry.insert ⟨card.id, index⟩ handle
        forest := engine.forest.modify handle fun card =>
          { card with index := some index }.subscribe .scheduler }

/-- Adds a card and registers it. Its handle is the forest's `next` one. -/
def addCard (engine : Engine) (card : Card) : Engine :=
  { engine with forest := engine.forest.insert card }.register engine.forest.next

/-- Takes a card out of the registry. The scheduler no longer listens to it, but it keeps its
number. -/
def unregister (engine : Engine) (handle : Handle) : Engine :=
  if engine.isRegistered handle then
    { engine with
      registry := engine.registry.erase handle
      forest := engine.forest.modify handle (·.unsubscribe .scheduler) }
  else engine

/-! ## Rules -/

/-- Puts a rule at the end of the table. It must be valid, and no rule of any trigger may have its
name. -/
def registerRule (engine : Engine) (rule : Rule) : Except Error Engine := do
  rule.validate
  if engine.rules.any (·.name = rule.name) then throw (.duplicateRule rule.name)
  return { engine with rules := engine.rules ++ [rule] }

/-! ## Listeners -/

/-- The number that the next external listener gets. After `2 ^ 32` subscriptions the numbers start
over, whether or not they are still in use. -/
def nextListener (engine : Engine) : ListenerId := ⟨.ofNat 32 engine.subscriptions⟩

/-- Lets an external listener with a note hear the events of a card. In the table it takes the place
of whoever has the same number. -/
def subscribe (engine : Engine) (handle : Handle) (note : Data) : Engine :=
  { engine with
    forest := engine.forest.modify handle (·.subscribe (.external engine.nextListener))
    listeners := engine.listeners.filter (·.1 ≠ engine.nextListener) ++
      [(engine.nextListener, note)]
    subscriptions := engine.subscriptions + 1 }

/-- Whether a listener hears the events of a card. -/
def isSubscribed (engine : Engine) (handle : Handle) (id : ListenerId) : Bool :=
  (engine.forest.get? handle).any (.external id ∈ ·.listeners)

/-- Ends the subscription of a listener to a card, if there is one. -/
def unsubscribe (engine : Engine) (handle : Handle) (id : ListenerId) : Engine :=
  if engine.isSubscribed handle id then
    { engine with
      forest := engine.forest.modify handle (·.unsubscribe (.external id))
      listeners := engine.listeners.filter (·.1 ≠ id) }
  else engine

/-! ## Edits -/

/-- Whether an edit finds its card and has something to do there. -/
def editApplies (engine : Engine) (handle : Handle) (edit : CardEdit) : Bool :=
  (engine.forest.get? handle).any edit.applies

/-- Edits a card. -/
def editCard (engine : Engine) (handle : Handle) (edit : CardEdit) : Engine :=
  { engine with forest := engine.forest.modify handle edit.apply }

end CardRules.Engine
