import CardRules.Proofs.Computation
import Mathlib.Logic.Relation

/-!
The course of an engine: what can happen to it while programs run on it.

A `Change` is what one operation or one effect does to the engine, the delivery of the events it
raises included. A `Course` is put together from changes, from processed events and from pumps, in
the order in which they happen. Laws about whole runs are shown by induction on the course.

`Engine.Throughout` says that a condition holds whenever a program or a callback sees the engine.
-/

namespace CardRules

/-! ## What programs ask for -/

/-- All operations that a program may ask for are of a certain sort. -/
def Program.AsksOnly {α : Type} (allowed : Operation → Prop) : Program α → Prop
  | .done _ => True
  | .fail _ => True
  | .perform operation next => allowed operation ∧ ∀ outcome, (next outcome).AsksOnly allowed
  | .inspect next => ∀ engine, (next engine).AsksOnly allowed
  | .note _ next => next.AsksOnly allowed

/-- All operations that callbacks may ask for are of a certain sort. -/
def Callbacks.AskOnly (allowed : Operation → Prop) (callbacks : Callbacks) : Prop :=
  ∀ name context, (callbacks name context).AsksOnly allowed

theorem Program.asksOnly_true {α : Type} (program : Program α) :
    program.AsksOnly fun _ => True := by
  induction program with
  | done _ => trivial
  | fail _ => trivial
  | perform _ _ ih => exact ⟨trivial, ih⟩
  | inspect _ ih => exact ih
  | note _ _ ih => exact ih

theorem Callbacks.askOnly_true (callbacks : Callbacks) : callbacks.AskOnly fun _ => True :=
  fun name context => (callbacks name context).asksOnly_true

/-- A program that asks only for operations of two sorts asks only for those of both. -/
theorem Program.AsksOnly.and {α : Type} {allowed other : Operation → Prop} {program : Program α}
    (h : program.AsksOnly allowed) (h' : program.AsksOnly other) :
    program.AsksOnly fun operation => allowed operation ∧ other operation := by
  induction program with
  | done _ => trivial
  | fail _ => trivial
  | perform _ _ ih => exact ⟨⟨h.1, h'.1⟩, fun outcome => ih outcome (h.2 outcome) (h'.2 outcome)⟩
  | inspect _ ih => exact fun engine => ih engine (h engine) (h' engine)
  | note _ _ ih => exact ih h h'

/-! ## What programs see -/

open Classical in
/-- A look at the engine before a program goes on. Where the condition fails, an alarm is noted. -/
noncomputable def Program.guarded {α : Type} (condition : Engine → Prop) (alarm : Data)
    (program : Program α) : Program α :=
  .inspect fun engine => if condition engine then program else .note alarm program

/-- The program with a look at the engine before each of its steps and at its end. -/
noncomputable def Program.watched {α : Type} (condition : Engine → Prop) (alarm : Data) :
    Program α → Program α
  | .done value => guarded condition alarm (.done value)
  | .fail error => guarded condition alarm (.fail error)
  | .perform operation next =>
    guarded condition alarm (.perform operation fun outcome =>
      (next outcome).watched condition alarm)
  | .inspect next => guarded condition alarm (.inspect fun engine =>
      (next engine).watched condition alarm)
  | .note data next => guarded condition alarm (.note data (next.watched condition alarm))

/-- A condition holds in every engine that the program of a run and its callbacks get to see, from
the first step to the last: with an alarm wherever it fails, the run is the same. -/
def Engine.Throughout {α : Type} (condition : Engine → Prop) (callbacks : Callbacks) (depth : Nat)
    (program : Program α) (engine : Engine) : Prop :=
  ∀ alarm,
    run (fun name context => (callbacks name context).watched condition alarm) depth
        (program.watched condition alarm) engine =
      run callbacks depth program engine

/-- A condition holds throughout a run, and in the engine at its end if it has one. -/
structure Engine.Upholds {α : Type} (condition : Engine → Prop) (callbacks : Callbacks)
    (depth : Nat) (program : Program α) (engine : Engine) : Prop where
  throughout : Throughout condition callbacks depth program engine
  final : ∀ {result after}, run callbacks depth program engine = some (result, after) →
    condition after

/-! ## Changes -/

/-- A change of a card that leaves its identity, its links and its listeners alone. -/
def Card.IsEdit (change : Card → Card) : Prop :=
  ∀ card, ∃ tags properties, change card = { card with tags, properties }

namespace Engine

/-- What an operation or an effect does to an engine. Only what a program asks for can bring in
cards and factories of its own, register rules, and change registrations and subscriptions. -/
inductive Change (allowed : Operation → Prop) (engine : Engine) : Engine → Prop
  | addCard {card : Card} (asked : allowed (.addCard card)) :
    Change allowed engine (engine.addCard card)
  | makeCard {factory : Factory} {id : String} {card : Card}
    (known : engine.factory = some factory) (made : factory.make? id = some card) :
    Change allowed engine (engine.addCard card)
  | setFactory {factory : Factory} (asked : allowed (.setFactory factory)) :
    Change allowed engine { engine with factory := some factory }
  | register {handle : Handle} (asked : allowed (.registerCard handle)) :
    Change allowed engine (engine.register handle)
  | unregister {handle : Handle} (asked : allowed (.unregisterCard handle)) :
    Change allowed engine (engine.unregister handle)
  | registerRule {rule : Rule} {after : Engine}
    (asked : allowed (.registerRule rule) ∨
      ∃ rules, rule ∈ rules ∧ allowed (.registerRules rules))
    (accepted : engine.registerRule rule = .ok after) : Change allowed engine after
  | subscribe {handle : Handle} {note : Data} (asked : allowed (.subscribe handle note))
    (known : engine.forest.contains handle = true) :
    Change allowed engine (engine.subscribe handle note)
  | unsubscribe {handle : Handle} {listener : ListenerId}
    (asked : allowed (.unsubscribe handle listener)) :
    Change allowed engine (engine.unsubscribe handle listener)
  | attach {parent child : Handle} {intrinsic : Bool} {forest : Forest}
    (attached : engine.forest.attach parent child intrinsic = .ok forest) :
    Change allowed engine { engine with forest }.deliver
  | remove {parent child : Handle} {force : Bool} {forest : Forest}
    (asked : force = true →
      allowed (.removeChild parent child force) ∨ allowed (.detach child force))
    (removed : engine.forest.remove? parent child force = some forest) :
    Change allowed engine { engine with forest }.deliver
  | raise {raised : Raised} (known : engine.forest.contains raised.source = true) :
    Change allowed engine
      { engine with forest := engine.forest.emit raised.source raised.event }.deliver
  | tickAll (asked : allowed .tickAll) :
    Change allowed engine
      { engine with
        forest := engine.registry.handles.foldl (·.emit · .tick) engine.forest }.deliver
  | deliver : Change allowed engine engine.deliver
  | edit {handle : Handle} {change : Card → Card} (edits : Card.IsEdit change) :
    Change allowed engine { engine with forest := engine.forest.modify handle change }
  | keepError (error : Option Error) : Change allowed engine { engine with pumpError := error }
  | note (data : Data) : Change allowed engine (engine.record (.noted data))

/-- With more operations allowed there are more changes. -/
theorem Change.mono {allowed wider : Operation → Prop} {engine after : Engine}
    (hwider : ∀ operation, allowed operation → wider operation)
    (h : Change allowed engine after) : Change wider engine after := by
  cases h with
  | addCard asked => exact .addCard (hwider _ asked)
  | makeCard known made => exact .makeCard known made
  | setFactory asked => exact .setFactory (hwider _ asked)
  | register asked => exact .register (hwider _ asked)
  | unregister asked => exact .unregister (hwider _ asked)
  | registerRule asked accepted =>
    refine .registerRule (asked.imp (hwider _) ?_) accepted
    exact fun ⟨rules, hmem, hasked⟩ => ⟨rules, hmem, hwider _ hasked⟩
  | subscribe asked known => exact .subscribe (hwider _ asked) known
  | unsubscribe asked => exact .unsubscribe (hwider _ asked)
  | attach attached => exact .attach attached
  | remove asked removed =>
    exact .remove (fun hforce => (asked hforce).imp (hwider _) (hwider _)) removed
  | raise known => exact .raise known
  | tickAll asked => exact .tickAll (hwider _ asked)
  | deliver => exact .deliver
  | edit edits => exact .edit edits
  | keepError error => exact .keepError error
  | note data => exact .note data

/-- What an engine is at while it changes. -/
inductive Stage
  /-- Changes are made, and no event is processed. -/
  | quiet
  /-- Operations are carried out. -/
  | acting
  /-- The rules of one event run. -/
  | firing
  /-- The queue is pumped. -/
  | draining

/-- What happens to an engine on the way from one state to another. -/
inductive Course (allowed : Operation → Prop) : Stage → Engine → Engine → Prop
  | refl (stage : Stage) (engine : Engine) : Course allowed stage engine engine
  | trans {stage : Stage} {first second third : Engine} (before : Course allowed stage first second)
    (after : Course allowed stage second third) : Course allowed stage first third
  | change {stage : Stage} {engine after : Engine} (change : Change allowed engine after) :
    Course allowed stage engine after
  /-- The chances of the rules for an event are drawn. -/
  | draw (engine : Engine) (generator : Random.Generator) :
    Course allowed .firing engine { engine with generator }
  /-- A rule begins to run. -/
  | fire (engine : Engine) (context : RuleContext) :
    Course allowed .firing engine (engine.record (.fired engine.depth context))
  /-- The effects of a rule are carried out. -/
  | effects {engine after : Engine} (effects : Course allowed .acting engine after) :
    Course allowed .firing engine after
  /-- An event is processed. -/
  | process {engine after : Engine} (rules : Course allowed .firing engine.enter after) :
    Course allowed .acting engine after.leave
  /-- An event is taken from the queue. -/
  | take {engine after : Engine} {raised : Raised}
    (taken : engine.takeNext? = some (raised, after)) : Course allowed .draining engine after
  /-- An event that was taken is processed. -/
  | serve {engine after : Engine} (served : Course allowed .acting engine after) :
    Course allowed .draining engine after
  | pump {engine after : Engine} (idle : engine.isIdle = true)
    (drained : Course allowed .draining { engine with pumping := true } after) :
    Course allowed .acting engine { after with pumping := false }

/-- A single step of a course. -/
inductive Step (allowed : Operation → Prop) (engine : Engine) : Engine → Prop
  | change {after : Engine} (change : Change allowed engine after) : Step allowed engine after
  | draw (generator : Random.Generator) : Step allowed engine { engine with generator }
  | fire (context : RuleContext) : Step allowed engine (engine.record (.fired engine.depth context))
  | enter : Step allowed engine engine.enter
  | leave : Step allowed engine engine.leave
  | take {after : Engine} {raised : Raised} (taken : engine.takeNext? = some (raised, after)) :
    Step allowed engine after
  | startPump (idle : engine.isIdle = true) : Step allowed engine { engine with pumping := true }
  | stopPump : Step allowed engine { engine with pumping := false }

variable {allowed : Operation → Prop}

/-- With more operations allowed there are more steps. -/
theorem Step.mono {wider : Operation → Prop} {engine after : Engine}
    (hwider : ∀ operation, allowed operation → wider operation)
    (h : Step allowed engine after) : Step wider engine after := by
  cases h with
  | change change => exact .change (change.mono hwider)
  | draw generator => exact .draw generator
  | fire context => exact .fire context
  | enter => exact .enter
  | leave => exact .leave
  | take taken => exact .take taken
  | startPump idle => exact .startPump idle
  | stopPump => exact .stopPump

/-- A condition that each single step keeps is kept by every course. -/
theorem Course.keeps {condition : Engine → Prop}
    (hstep : ∀ {engine after}, Step allowed engine after → condition engine → condition after)
    {stage : Stage} {engine after : Engine} (h : Course allowed stage engine after) :
    condition engine → condition after := by
  -- An event and a pump are a course between two steps: one that opens them, one that closes them.
  induction h with
  | refl _ _ => exact id
  | trans _ _ ih₁ ih₂ => exact ih₂ ∘ ih₁
  | change hc => exact hstep (.change hc)
  | draw _ generator => exact hstep (.draw generator)
  | fire _ context => exact hstep (.fire context)
  | effects _ ih => exact ih
  | process _ ih => exact fun he => hstep .leave (ih (hstep .enter he))
  | take ht => exact hstep (.take ht)
  | serve _ ih => exact ih
  | pump hidle _ ih => exact fun he => hstep .stopPump (ih (hstep (.startPump hidle) he))

/-! ## What is not about cards -/

/-- Two engines have the same cards, registered alike, and the same factory. -/
structure SameCards (engine after : Engine) : Prop where
  forest : after.forest = engine.forest
  registry : after.registry = engine.registry
  factory : after.factory = engine.factory

/-- A rule that is accepted is valid and has a new name, and it goes to the end of the table. -/
theorem registerRule_eq_ok {engine after : Engine} {rule : Rule}
    (h : engine.registerRule rule = .ok after) :
    rule.fault? = none ∧ (∀ other ∈ engine.rules, other.name ≠ rule.name) ∧
      after = { engine with rules := engine.rules ++ [rule] } := by
  -- Both checks must have passed, and what is left is the table with the rule at its end.
  simp only [registerRule, Rule.validate, bind, Except.bind] at h
  cases hfault : rule.fault? with
  | some fault => simp [hfault] at h
  | none =>
    by_cases hname : engine.rules.any (·.name = rule.name) = true
    · simp only [hfault, hname] at h
      simp [throw, throwThe, MonadExceptOf.throw] at h
    · simp only [hfault, hname] at h
      refine ⟨rfl, ?_, (Except.ok.inj h).symm⟩
      simpa using hname

/-- Only changes concern the cards of an engine: what is kept by them, and is about nothing but the
cards, is kept by every step. -/
theorem Step.keepsCards {condition : Engine → Prop}
    (hsame : ∀ {engine after}, SameCards engine after → condition engine → condition after)
    (hchange : ∀ {engine after}, Change allowed engine after → condition engine → condition after)
    {engine after : Engine} (hstep : Step allowed engine after) :
    condition engine → condition after := by
  cases hstep with
  | change change => exact hchange change
  | draw => exact hsame ⟨rfl, rfl, rfl⟩
  | fire => exact hsame ⟨rfl, rfl, rfl⟩
  | enter => exact hsame ⟨rfl, rfl, rfl⟩
  | leave =>
    unfold Engine.leave
    split
    · exact hsame ⟨rfl, rfl, rfl⟩
    · exact hsame ⟨rfl, rfl, rfl⟩
  | take taken =>
    unfold takeNext? at taken
    split at taken
    · simp at taken
    · obtain ⟨-, rfl⟩ := Prod.mk.inj (Option.some.inj taken)
      exact hsame ⟨rfl, rfl, rfl⟩
  | startPump => exact hsame ⟨rfl, rfl, rfl⟩
  | stopPump => exact hsame ⟨rfl, rfl, rfl⟩

end Engine

end CardRules
