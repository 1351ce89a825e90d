import CardRules.Engine.Pump

/-!
The operations of an engine as data, with one answer for each, and the function that carries them
out. Callers and callbacks have the same operations.
-/

namespace CardRules

/-- What an engine can be asked to do. -/
inductive Operation where
  | addCard (card : Card)
  | createCard (id : String)
  | setFactory (factory : Factory)
  | registerCard (handle : Handle)
  | unregisterCard (handle : Handle)
  | registerRule (rule : Rule)
  /-- Registers rules in order, up to the first that is refused; those before it stay. -/
  | registerRules (rules : List Rule)
  | subscribe (handle : Handle) (note : Data)
  | unsubscribe (handle : Handle) (listener : ListenerId)
  | attach (parent child : Handle) (intrinsic : Bool)
  | removeChild (parent child : Handle) (force : Bool)
  | detach (child : Handle) (force : Bool)
  | editCard (handle : Handle) (edit : CardEdit)
  | raise (raised : Raised)
  | tickAll
  | pump (limit : Nat)
  | pumpAll
  | process (raised : Raised)
  /-- Hands over the error kept from a pump on the engine's own account, if any. -/
  | takePumpError

namespace Operation

/-- The use of a card. -/
def use (handle : Handle) : Operation := .raise ⟨handle, .use⟩

/-- A tick of a card. -/
def tick (handle : Handle) : Operation := .raise ⟨handle, .tick⟩

/-- A signal on a card. -/
def signal (handle : Handle) (id : String) (payload : Option Data) : Operation :=
  .raise ⟨handle, .custom id payload⟩

end Operation

/-- What an operation answers. -/
inductive Answer where
  | done
  /-- Whether there was something to do. -/
  | flag (value : Bool)
  /-- How many events were taken. -/
  | count (value : Nat)
  /-- The card that was made, if any. -/
  | card (handle : Option Handle)
  | listener (id : ListenerId)
  | failure (error : Option Error)

namespace Engine

/-- Puts a rule into the table. -/
def addRule (rule : Rule) : EngineM Unit := do
  set (← liftM ((← get).registerRule rule))

/-- Carries out an operation. -/
def perform (invoke : Invoker) : Operation → EngineM Answer
  | .addCard card => do
    let handle := (← get).forest.next
    modify (·.addCard card)
    return .card (some handle)
  | .createCard id => .card <$> createCard (settle invoke) id
  | .setFactory factory => do
    modify fun engine => { engine with factory := some factory }
    return .done
  | .registerCard handle => do
    let engine ← get
    if !engine.forest.contains handle then throw (.unknownCard handle)
    set (engine.register handle)
    return .flag (!engine.isRegistered handle)
  | .unregisterCard handle => do
    let engine ← get
    set (engine.unregister handle)
    return .flag (engine.isRegistered handle)
  | .registerRule rule => do
    addRule rule
    return .done
  | .registerRules rules => do
    rules.forM addRule
    return .done
  | .subscribe handle note => do
    let engine ← get
    if !engine.forest.contains handle then throw (.unknownCard handle)
    set (engine.subscribe handle note)
    return .listener engine.nextListener
  | .unsubscribe handle listener => do
    let engine ← get
    set (engine.unsubscribe handle listener)
    return .flag (engine.isSubscribed handle listener)
  | .attach parent child intrinsic => do
    attach (settle invoke) parent child intrinsic
    return .done
  | .removeChild parent child force => .flag <$> removeChild (settle invoke) parent child force
  | .detach child force => .flag <$> detach (settle invoke) child force
  | .editCard handle edit => do
    let engine ← get
    set (engine.editCard handle edit)
    return .flag (engine.editApplies handle edit)
  | .raise raised => do
    raise (settle invoke) raised
    return .done
  | .tickAll => do
    tickAll (settle invoke)
    return .done
  | .pump limit => .count <$> pump invoke limit
  | .pumpAll => .count <$> pumpAll invoke
  | .process raised => do
    process invoke raised
    return .done
  | .takePumpError => do
    let engine ← get
    set { engine with pumpError := none }
    return .failure engine.pumpError

end Engine

end CardRules
