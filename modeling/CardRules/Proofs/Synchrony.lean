import CardRules.Proofs.Mirroring
import CardRules.Proofs.Scheduling

/-!
Two engines in step. A relation that events respect on their way in and out is respected by whole
pumps, and so by the operations of an engine one after the other.
-/

namespace CardRules

open EngineM

/-- Whether an operation settles once it is done. -/
def Operation.settles : Operation → Bool
  | .createCard _ | .attach .. | .removeChild .. | .detach .. | .raise _ | .tickAll => true
  | _ => false

/-- Whether an operation has events processed at once. -/
def Operation.serves : Operation → Bool
  | .pump _ | .pumpAll | .process _ => true
  | _ => false

/-- The rules that an operation registers, as far as they are accepted. -/
def Operation.rules : Operation → List Rule
  | .registerRule rule => [rule]
  | .registerRules rules => rules
  | _ => []

namespace Engine

/-- A relation between engines that pumps respect; `inner` is the one that holds as long as one more
event is processed. -/
structure Synchrony (rel inner : Engine → Engine → Prop) : Prop where
  accord : Accord inner
  moves : Moves inner settleInside settleInside
  enter {engine other : Engine} (h : rel engine other) : inner engine.enter other.enter
  leave {engine other : Engine} (h : inner engine other) : rel engine.leave other.leave
  isIdle {engine other : Engine} (h : rel engine other) : other.isIdle = engine.isIdle
  config {engine other : Engine} (h : rel engine other) :
    other.config.maxEventsPerPump = engine.config.maxEventsPerPump
  queue {engine other : Engine} (h : rel engine other) : other.queue = engine.queue
  pumping {engine other : Engine} (h : rel engine other) (pumping : Bool) :
    rel { engine with pumping } { other with pumping }
  taken {engine other : Engine} (h : rel engine other) (raised : Raised) (queue : List Raised) :
    rel ({ engine with queue }.record (.taken raised)) ({ other with queue }.record (.taken raised))

/-- Callbacks that rules of related engines run mirror each other. -/
def CallbacksMirror (rel : Engine → Engine → Prop) (left right : Invoker) : Prop :=
  ∀ engine other, rel engine other → ∀ rule ∈ engine.rules, ∀ name,
    Effect.invoke name ∈ rule.effects → ∀ context,
      Mirrors rel (left name context) (right name context)

namespace Synchrony

variable {rel inner : Engine → Engine → Prop} (hsync : Synchrony rel inner) {left right : Invoker}

include hsync

section

variable (hinvoke : CallbacksMirror inner left right)

include hinvoke

theorem process (raised : Raised) :
    Mirrors rel (Engine.process left raised) (Engine.process right raised) := by
  intro engine other h
  rw [start_process, start_process]
  have hrules := hsync.accord.runRules hsync.moves raised hinvoke _ _ (hsync.enter h)
  exact hrules.thenAlways fun _ _ => hsync.leave

theorem drain (limit count : Nat) :
    Mirrors rel (Engine.drain left limit count) (Engine.drain right limit count) := by
  induction limit generalizing count with
  | zero => exact .pure count
  | succ limit ih =>
    intro engine other h
    have hqueue := hsync.queue h
    cases hnext : engine.takeNext? with
    | none =>
      have hnext' : other.takeNext? = none := by
        unfold takeNext? at hnext ⊢
        split at hnext
        next hempty => rw [hqueue, hempty]
        next => cases hnext
      rw [start_drain_of_none _ _ hnext, start_drain_of_none _ _ hnext']
      exact .ended _ h
    | some next =>
      obtain ⟨raised, taken⟩ := next
      obtain ⟨rest, hwaiting, rfl⟩ := takeNext?_eq_some hnext
      have hnext' : other.takeNext? =
          some (raised, { other with queue := rest }.record (.taken raised)) := by
        unfold takeNext?
        rw [hqueue, hwaiting]
      rw [start_drain_of_some _ _ hnext, start_drain_of_some _ _ hnext']
      exact (process hsync hinvoke raised _ _ (hsync.taken h raised rest)).bind
        fun _ => ih (count + 1)

theorem pump (limit : Nat) : Mirrors rel (Engine.pump left limit) (Engine.pump right limit) := by
  intro engine other h
  by_cases hidle : engine.isIdle = true
  · rw [start_pump_of_isIdle _ _ _ hidle, start_pump_of_isIdle _ _ _ ((hsync.isIdle h).trans hidle)]
    exact (drain hsync hinvoke limit 0 _ _ (hsync.pumping h true)).thenAlways
      fun _ _ hafter => hsync.pumping hafter false
  · rw [start_pump_of_not_isIdle _ _ _ hidle,
      start_pump_of_not_isIdle _ _ _ (by rwa [hsync.isIdle h])]
    exact .ended _ h

theorem pumpAll : Mirrors rel (Engine.pumpAll left) (Engine.pumpAll right) := by
  intro engine other h
  rw [start_pumpAll, start_pumpAll, hsync.config h]
  exact pump hsync hinvoke _ engine other h

/-- A pump on the engines' own account, if the error that it may end with is kept alike. -/
theorem pumpQuietly (hkept : ∀ engine other pumpError, rel engine other →
      rel { engine with pumpError } { other with pumpError }) :
    Mirrors rel (Engine.pumpQuietly left) (Engine.pumpQuietly right) := by
  unfold Engine.pumpQuietly
  refine .bind (fun engine other h => (pumpAll hsync hinvoke engine other h).outcome) fun outcome => ?_
  cases outcome with
  | ok _ => exact .pure ()
  | error error => exact .modify fun engine other h => hkept engine other (some error) h

theorem perform {operation : Operation} (hserves : operation.serves = true) :
    Mirrors rel (Engine.perform left operation) (Engine.perform right operation) := by
  cases operation with
  | pump limit => exact .map _ (pump hsync hinvoke limit)
  | pumpAll => exact .map _ (pumpAll hsync hinvoke)
  | process raised => exact .bind (process hsync hinvoke raised) fun _ => .pure _
  | _ => cases hserves

end

end Synchrony

/-! ## Operations -/

/-- A rule is accepted by both engines or by none, if both have the same names. -/
theorem mirrors_addRule {rel : Engine → Engine → Prop} {rule : Rule}
    (hnames : ∀ engine other, rel engine other →
      other.rules.any (·.name = rule.name) = engine.rules.any (·.name = rule.name))
    (hadded : ∀ engine other, rel engine other →
      engine.rules.any (·.name = rule.name) = false →
      rel { engine with rules := engine.rules ++ [rule] }
        { other with rules := other.rules ++ [rule] }) :
    Mirrors rel (addRule rule) (addRule rule) := by
  intro engine other h
  rw [start_addRule, start_addRule]
  unfold registerRule
  rw [hnames engine other h]
  cases rule.validate with
  | error error => exact .ended _ h
  | ok =>
    cases htaken : engine.rules.any (·.name = rule.name) with
    | true => exact .ended _ h
    | false => exact .ended _ (hadded engine other h htaken)

/-- Carries out an operation that settles in a way of its own. -/
def performSettling (settle : EngineM Unit) (invoke : Invoker) : Operation → EngineM Answer
  | .createCard id => .card <$> createCard settle id
  | .attach parent child intrinsic => do
    attach settle parent child intrinsic
    return .done
  | .removeChild parent child force => .flag <$> removeChild settle parent child force
  | .detach child force => .flag <$> detach settle child force
  | .raise raised => do
    raise settle raised
    return .done
  | .tickAll => do
    tickAll settle
    return .done
  | operation => perform invoke operation

theorem performSettling_settle (invoke : Invoker) (operation : Operation) :
    performSettling (settle invoke) invoke operation = perform invoke operation := by
  cases operation <;> rfl

theorem performSettling_of_not_settles (settle : EngineM Unit) (invoke : Invoker)
    {operation : Operation} (h : operation.settles = false) :
    performSettling settle invoke operation = perform invoke operation := by
  cases operation with
  | createCard | attach | removeChild | detach | raise | tickAll => cases h
  | _ => rfl

theorem Moves.performSettling {rel : Engine → Engine → Prop} {settle settle' : EngineM Unit}
    (hmoves : Moves rel settle settle') (haccord : Accord rel) (left right : Invoker)
    {operation : Operation} (hsettles : operation.settles = true) :
    Mirrors rel (performSettling settle left operation)
      (performSettling settle' right operation) := by
  cases operation with
  | createCard id => exact .map _ (haccord.assemble hmoves _ id)
  | attach parent child intrinsic =>
    exact .bind (hmoves.attach parent child intrinsic) fun _ => .pure _
  | removeChild parent child force => exact .map _ (hmoves.removeChild parent child force)
  | detach child force => exact .map _ (hmoves.detach child force)
  | raise raised => exact .bind (hmoves.raise raised) fun _ => .pure _
  | tickAll => exact .bind hmoves.tickAll fun _ => .pure _
  | _ => cases hsettles

/-- Carries out operations in order, whatever becomes of each, and lists them with their outcomes. -/
def transcript (carryOut : Operation → EngineM Answer) :
    List Operation → EngineM (List (Operation × Except Error Answer))
  | [] => pure []
  | operation :: rest => do
    let outcome ← (carryOut operation).outcome
    let others ← transcript carryOut rest
    return (operation, outcome) :: others

theorem transcript_cons (carryOut : Operation → EngineM Answer) (operation : Operation)
    (rest : List Operation) :
    transcript carryOut (operation :: rest) =
      (carryOut operation).outcome >>= fun outcome =>
        ((operation, outcome) :: ·) <$> transcript carryOut rest := by
  rw [transcript]
  simp only [bind_pure_comp]

theorem mirrors_transcript {rel : Engine → Engine → Prop}
    {carryOut carryOut' : Operation → EngineM Answer} {operations : List Operation}
    (h : ∀ operation ∈ operations, Mirrors rel (carryOut operation) (carryOut' operation)) :
    Mirrors rel (transcript carryOut operations) (transcript carryOut' operations) := by
  induction operations with
  | nil => exact .pure []
  | cons operation rest ih =>
    rw [transcript_cons, transcript_cons]
    refine .bind (fun engine other hrel => ?_) fun outcome => ?_
    · exact (h operation List.mem_cons_self engine other hrel).outcome
    · exact .map _ (ih fun other hmem => h other (List.mem_cons_of_mem _ hmem))

end Engine

end CardRules
