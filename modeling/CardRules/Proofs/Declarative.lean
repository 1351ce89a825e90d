import CardRules.Proofs.Forest.Growth
import CardRules.Proofs.Registration
import CardRules.Proofs.Rest

/-!
Reachable engines, and declarative ones among them: no rule of theirs runs a callback, so an event
sets off nothing but what effects can do, and nothing is asked for on the way.
-/

namespace CardRules

open EngineM

/-- A rule without callbacks. -/
def Rule.IsDeclarative (rule : Rule) : Prop := ∀ name, Effect.invoke name ∉ rule.effects

/-- A rule is among those that operations of a sort ask to register. -/
def Rule.AskedFor (rule : Rule) (allowed : Operation → Prop) : Prop :=
  allowed (.registerRule rule) ∨ ∃ rules, rule ∈ rules ∧ allowed (.registerRules rules)

/-- Whether an effect runs a callback. -/
def Effect.isInvoke : Effect → Bool
  | .invoke _ => true
  | _ => false

theorem Rule.isDeclarative_iff {rule : Rule} :
    rule.IsDeclarative ↔ ∀ effect ∈ rule.effects, effect.isInvoke = false := by
  constructor
  · intro h effect hmem
    cases effect with
    | invoke name => exact absurd hmem (h name)
    | _ => rfl
  · intro h name hmem
    cases h _ hmem

instance (rule : Rule) : Decidable rule.IsDeclarative :=
  decidable_of_iff _ Rule.isDeclarative_iff.symm

namespace Engine

/-- No rule of an engine has a callback. -/
def Declarative (engine : Engine) : Prop := ∀ rule ∈ engine.rules, rule.IsDeclarative

instance (engine : Engine) : Decidable engine.Declarative :=
  inferInstanceAs (Decidable (∀ rule ∈ engine.rules, rule.IsDeclarative))

/-- An engine that a program comes to between its operations, whatever it asks for and whatever its
callbacks do, if the cards it brings in are fresh. -/
inductive Reachable (engine : Engine) : Prop
  | intro {α : Type} {callbacks : Callbacks} {depth : Nat} {program rest : Program α}
    {config : Config} {factory : Option Factory}
    (hcallbacks : callbacks.AskOnly Operation.BringsFresh)
    (hprogram : program.AsksOnly Operation.BringsFresh)
    (hfactory : ∀ made, factory = some made → made.MakesFresh)
    (hreaches : program.Reaches (perform (invoker callbacks depth)) (new config factory) rest
      engine) : Reachable engine

variable {allowed : Operation → Prop} {stage : Stage} {engine after : Engine} {handle : Handle}

/-! ## Reachable engines -/

theorem reachable_of_run {α : Type} {callbacks : Callbacks} {depth : Nat} {program : Program α}
    {config : Config} {factory : Option Factory} {value : α}
    (hcallbacks : callbacks.AskOnly Operation.BringsFresh)
    (hprogram : program.AsksOnly Operation.BringsFresh)
    (hfactory : ∀ made, factory = some made → made.MakesFresh)
    (hrun : run callbacks depth program (new config factory) = some (.ok value, engine)) :
    engine.Reachable :=
  .intro hcallbacks hprogram hfactory (Program.reaches_of_run hrun .start)

theorem reachable_of_isOk {α : Type} {callbacks : Callbacks} {depth : Nat} {program : Program α}
    {config : Config} {factory : Option Factory} {result : Except Error α}
    (hcallbacks : callbacks.AskOnly Operation.BringsFresh)
    (hprogram : program.AsksOnly Operation.BringsFresh)
    (hfactory : ∀ made, factory = some made → made.MakesFresh)
    (hrun : run callbacks depth program (new config factory) = some (result, engine))
    (hok : result.isOk = true) : engine.Reachable := by
  cases result with
  | error error => cases hok
  | ok value => exact reachable_of_run hcallbacks hprogram hfactory hrun

/-- The way to where a program comes is a course. -/
theorem course_of_reaches {α : Type} {callbacks : Callbacks} {depth : Nat}
    {program rest : Program α} (hcallbacks : callbacks.AskOnly allowed)
    (hprogram : program.AsksOnly allowed)
    (h : program.Reaches (perform (invoker callbacks depth)) engine rest after) :
    rest.AsksOnly allowed ∧ Course allowed .acting engine after := by
  induction h with
  | start => exact ⟨hprogram, .refl .acting engine⟩
  | operation _ hreturned ih =>
    obtain ⟨⟨hasked, hnext⟩, hway⟩ := ih
    exact ⟨hnext _, hway.trans (course_of_perform hcallbacks hasked hreturned)⟩
  | look _ ih => exact ⟨ih.1 _, ih.2⟩
  | note _ ih =>
    refine ⟨ih.1, ih.2.trans ?_⟩
    exact .change (.note _)

theorem Reachable.keeps {condition : Engine → Prop} (h : engine.Reachable)
    (hstays : Stays Operation.BringsFresh condition)
    (hnew : ∀ config factory, (∀ made, factory = some made → made.MakesFresh) →
      condition (new config factory)) : condition engine := by
  obtain ⟨hcallbacks, hprogram, hfactory, hreaches⟩ := h
  obtain ⟨-, hcourse⟩ := course_of_reaches hcallbacks hprogram hreaches
  exact hcourse.keeps hstays (hnew _ _ hfactory)

theorem Reachable.listed (h : engine.Reachable) : engine.SoundlyListed :=
  h.keeps soundlyListed_stays fun config _ hfactory => soundlyListed_new config hfactory

theorem Reachable.atRest (h : engine.Reachable) : engine.AtRest := by
  obtain ⟨hcallbacks, hprogram, -, hreaches⟩ := h
  obtain ⟨-, hcourse⟩ := course_of_reaches hcallbacks hprogram hreaches
  exact ((settled_new _ _).course hcourse).rest

/-! ## Cards that come in -/

/-- Being registered gives a card a number and a listener. -/
theorem sameView_register {γ : Type} (view : Card → γ)
    (hview : ∀ card index,
      view ({ card with index := some index }.subscribe .scheduler) = view card)
    (engine : Engine) (handle : Handle) :
    Forest.SameView view engine.forest (engine.register handle).forest := by
  rcases register_cases engine handle with hsame | ⟨card, hnew, hcard⟩
  · rw [hsame]
    exact .refl engine.forest
  · rw [register_of_get? hnew hcard]
    exact Forest.sameView_modify (fun found => hview found _) engine.forest handle

/-- A card comes in with the id and the links that it has. -/
theorem get?_addCard_next (engine : Engine) (card : Card) :
    ∃ later, (engine.addCard card).forest.get? engine.forest.next = some later ∧
      later.id = card.id ∧ later.links = card.links := by
  have hinserted : (engine.forest.insert card).get? engine.forest.next = some card := by
    rw [Forest.get?_insert, if_pos rfl]
  have hview := sameView_register (fun card => (card.id, card.links)) (fun _ _ => rfl)
    { engine with forest := engine.forest.insert card } engine.forest.next
  obtain ⟨later, hlater, heq⟩ := hview.exists_get? hinserted
  obtain ⟨hid, hlinks⟩ := Prod.mk.inj heq
  exact ⟨later, hlater, hid, hlinks⟩

theorem owner?_addCard (engine : Engine) {card : Card} (hfresh : card.IsFresh) (handle : Handle) :
    (engine.addCard card).forest.owner? handle = engine.forest.owner? handle := by
  have hview := sameView_register Card.links (fun _ _ => rfl)
    { engine with forest := engine.forest.insert card } engine.forest.next
  unfold addCard
  rw [hview.owner?_eq]
  exact Forest.owner?_insert hfresh handle

theorem outbox_addCard (engine : Engine) (card : Card) :
    (engine.addCard card).forest.outbox = engine.forest.outbox := by
  unfold addCard
  rcases register_cases { engine with forest := engine.forest.insert card } engine.forest.next with
    hsame | ⟨found, hnew, hfound⟩
  · rw [hsame]
    rfl
  · rw [register_of_get? hnew hfound]
    rfl

/-- A card that comes in changes nothing about the others. -/
theorem addCard_of_ne (engine : Engine) (card : Card) (h : handle ≠ engine.forest.next) :
    (engine.addCard card).forest.get? handle = engine.forest.get? handle ∧
      (engine.addCard card).registry.keyOf? handle = engine.registry.keyOf? handle := by
  have hinserted : (engine.forest.insert card).get? handle = engine.forest.get? handle := by
    rw [Forest.get?_insert, if_neg h]
  unfold addCard
  rcases register_cases { engine with forest := engine.forest.insert card } engine.forest.next with
    hsame | ⟨found, hnew, hfound⟩
  · rw [hsame]
    exact ⟨hinserted, rfl⟩
  · rw [get?_register hnew hfound, keyOf?_register hnew hfound, if_neg h, if_neg h]
    exact ⟨hinserted, rfl⟩

/-! ## Events of known cards -/

theorem contains_register (engine : Engine) (handle other : Handle) :
    (engine.register handle).forest.contains other = engine.forest.contains other := by
  rcases register_cases engine handle with hsame | ⟨card, hnew, hcard⟩
  · rw [hsame]
  · rw [register_of_get? hnew hcard]
    exact Forest.contains_eq_of_size_eq (Forest.size_modify ..) other

theorem contains_unregister (engine : Engine) (handle other : Handle) :
    (engine.unregister handle).forest.contains other = engine.forest.contains other := by
  rcases unregister_cases engine handle with hsame | hregistered
  · rw [hsame]
  · rw [unregister_of_isRegistered hregistered]
    exact Forest.contains_eq_of_size_eq (Forest.size_modify ..) other

theorem contains_addCard (card : Card) (h : engine.forest.contains handle = true) :
    (engine.addCard card).forest.contains handle = true := by
  unfold addCard
  rw [contains_register]
  exact Forest.contains_insert engine.forest card h

/-- A card stays in the forest for good. -/
theorem Change.contains (hchange : Change allowed engine after)
    (h : engine.forest.contains handle = true) : after.forest.contains handle = true := by
  rcases hchange.registration with hsame | ⟨card, -, rfl⟩ | ⟨other, -, rfl⟩ | ⟨other, -, rfl⟩
  · rw [hsame.forest.contains_eq, h]
  · exact contains_addCard card h
  · rw [contains_register, h]
  · rw [contains_unregister, h]

/-- All events that wait come from cards of the forest. -/
def KnowsSources (engine : Engine) : Prop :=
  ∀ raised ∈ engine.queue ++ engine.deferred, engine.forest.contains raised.source = true

theorem KnowsSources.enqueue (h : engine.KnowsSources) {raised : Raised}
    (hknown : engine.forest.contains raised.source = true) :
    (engine.enqueue raised).KnowsSources := by
  intro other hmem
  have hcases : other = raised ∨ other ∈ engine.queue ++ engine.deferred := by
    unfold Engine.enqueue at hmem
    split at hmem
    all_goals
      simp only [record, List.mem_append, List.mem_singleton] at hmem ⊢
      tauto
  have hforest : (engine.enqueue raised).forest = engine.forest := by
    unfold Engine.enqueue
    split <;> rfl
  rw [hforest]
  rcases hcases with rfl | hold
  · exact hknown
  · exact h other hold

theorem KnowsSources.change (hchange : Change allowed engine after) (h : engine.KnowsSources) :
    after.KnowsSources := by
  have hold : ∀ raised ∈ engine.queue ++ engine.deferred,
      after.forest.contains raised.source = true :=
    fun raised hmem => hchange.contains (h raised hmem)
  rcases hchange.schedule with hsame | ⟨forest, rfl⟩ | ⟨data, rfl⟩
  · unfold KnowsSources
    rw [hsame.queue, hsame.deferred]
    exact hold
  · rw [forest_deliver] at hold
    refine deliver_keeps_of_mem (fun _ _ _ hknown h => h.enqueue hknown) ?_ hold
    exact fun _ _ _ _ h => h
  · exact h

theorem knowsSources_stays : Stays allowed KnowsSources := by
  intro engine after hstep h
  cases hstep with
  | change hchange => exact h.change hchange
  | draw => exact h
  | fire => exact h
  | enter => exact h
  | leave =>
    unfold leave
    split
    · intro raised hmem
      exact h raised (by simpa using hmem)
    · exact h
  | take htaken =>
    obtain ⟨rest, hqueue, rfl⟩ := takeNext?_eq_some htaken
    intro raised hmem
    apply h raised
    rw [hqueue]
    exact List.mem_cons_of_mem _ hmem
  | startPump => exact h
  | stopPump => exact h

theorem Reachable.knowsSources (h : engine.Reachable) : engine.KnowsSources :=
  h.keeps knowsSources_stays fun _ _ _ raised hmem => by simp [new] at hmem

/-! ## Events without callbacks -/

theorem rules_register (engine : Engine) (handle : Handle) :
    (engine.register handle).rules = engine.rules := by
  rcases register_cases engine handle with hsame | ⟨card, hnew, hcard⟩
  · rw [hsame]
  · rw [register_of_get? hnew hcard]

theorem rules_unregister (engine : Engine) (handle : Handle) :
    (engine.unregister handle).rules = engine.rules := by
  unfold unregister
  split <;> rfl

theorem rules_unsubscribe (engine : Engine) (handle : Handle) (id : ListenerId) :
    (engine.unsubscribe handle id).rules = engine.rules := by
  unfold unsubscribe
  split <;> rfl

theorem factory_register (engine : Engine) (handle : Handle) :
    (engine.register handle).factory = engine.factory := by
  rcases register_cases engine handle with hsame | ⟨card, hnew, hcard⟩
  · rw [hsame]
  · rw [register_of_get? hnew hcard]

/-- Nothing changes the table of rules but the registration of a rule that a program asks for. -/
theorem Change.rules_eq_or_registers {allowed : Operation → Prop}
    (h : Change allowed engine after) :
    after.rules = engine.rules ∨
      ∃ rule, Rule.AskedFor rule allowed ∧ engine.registerRule rule = .ok after := by
  cases h with
  | registerRule asked accepted => exact .inr ⟨_, asked, accepted⟩
  | addCard => exact .inl (rules_register _ _)
  | makeCard => exact .inl (rules_register _ _)
  | setFactory => exact .inl rfl
  | register => exact .inl (rules_register _ _)
  | unregister => exact .inl (rules_unregister _ _)
  | subscribe => exact .inl rfl
  | unsubscribe => exact .inl (rules_unsubscribe _ _ _)
  | attach => exact .inl (rules_deliver _)
  | remove => exact .inl (rules_deliver _)
  | raise => exact .inl (rules_deliver _)
  | tickAll => exact .inl (rules_deliver _)
  | deliver => exact .inl (rules_deliver _)
  | edit => exact .inl rfl
  | keepError => exact .inl rfl
  | note => exact .inl rfl

theorem Step.rules_eq_or_registers {allowed : Operation → Prop} (h : Step allowed engine after) :
    after.rules = engine.rules ∨
      ∃ rule, Rule.AskedFor rule allowed ∧ engine.registerRule rule = .ok after := by
  cases h with
  | change hchange => exact hchange.rules_eq_or_registers
  | draw => exact .inl rfl
  | fire => exact .inl rfl
  | enter => exact .inl rfl
  | leave =>
    refine .inl ?_
    unfold Engine.leave
    split <;> rfl
  | take htaken =>
    obtain ⟨_, -, rfl⟩ := takeNext?_eq_some htaken
    exact .inl rfl
  | startPump => exact .inl rfl
  | stopPump => exact .inl rfl

theorem declarative_stays : Stays (fun _ => False) Declarative := by
  intro engine after hstep h
  have hrules : after.rules = engine.rules := by
    refine hstep.rules_eq_or_registers.resolve_right ?_
    rintro ⟨rule, hasked, -⟩
    simp [Rule.AskedFor] at hasked
  unfold Declarative
  rw [hrules]
  exact h

/-- Declarative rules call nothing, so whatever callbacks do is no matter. -/
theorem callbacksAlike_of_declarative (invoke : Invoker) :
    CallbacksAlike (fun _ => False) Declarative invoke invoke :=
  fun _ hrules rule hmem name hname => absurd hname (hrules rule hmem name)

section

variable {invoke : Invoker} (hrules : engine.Declarative)

include hrules

theorem Declarative.course_of_process {raised : Raised} {outcome : Except Error Unit}
    (h : (process invoke raised).start engine = some (outcome, after)) :
    Course (fun _ => False) .acting engine after :=
  (alike_process declarative_stays (callbacksAlike_of_declarative invoke) raised engine
    hrules).course h

theorem Declarative.course_of_pump {limit : Nat} {outcome : Except Error Nat}
    (h : (pump invoke limit).start engine = some (outcome, after)) :
    Course (fun _ => False) .acting engine after :=
  (alike_pump declarative_stays (callbacksAlike_of_declarative invoke) limit engine
    hrules).course h

theorem Declarative.course_of_pumpQuietly {outcome : Except Error Unit}
    (h : (pumpQuietly invoke).start engine = some (outcome, after)) :
    Course (fun _ => False) .acting engine after :=
  (alike_pumpQuietly declarative_stays (callbacksAlike_of_declarative invoke) engine
    hrules).course h

end

end Engine

end CardRules
