import CardRules.Proofs.Hearing
import CardRules.Proofs.Synchrony

/-!
An engine in another guise: with other settings, other rules, or another error kept from a pump. Most
of what is done to an engine does not look at these, and so it does the same to the engine in any
guise. Where the rules to run are chosen alike too, two guises stay in step.
-/

namespace CardRules

open EngineM

namespace Engine

/-- The engine with other settings and rules, and with another error kept from a pump. -/
def inGuise (engine : Engine) (config : Config) (rules : List Rule) (pumpError : Option Error) :
    Engine := { engine with config, rules, pumpError }

/-- A change that neither looks at the settings, the rules and the error kept from a pump, nor
changes them. -/
def SeesThrough (change : Engine → Engine) : Prop :=
  ∀ engine config rules pumpError,
    change (engine.inGuise config rules pumpError) =
      (change engine).inGuise config rules pumpError

section

variable {change : Engine → Engine} (h : SeesThrough change) (engine : Engine)

include h

/-- An engine is a guise of its own, so nothing that makes it up is touched. -/
theorem SeesThrough.eq_inGuise :
    change engine = (change engine).inGuise engine.config engine.rules engine.pumpError :=
  h engine engine.config engine.rules engine.pumpError

theorem SeesThrough.config_eq : (change engine).config = engine.config := by
  rw [h.eq_inGuise]
  rfl

theorem SeesThrough.rules_eq : (change engine).rules = engine.rules := by
  rw [h.eq_inGuise]
  rfl

theorem SeesThrough.pumpError_eq : (change engine).pumpError = engine.pumpError := by
  rw [h.eq_inGuise]
  rfl

end

/-! ## Changes that see through -/

theorem seesThrough_register (handle : Handle) : SeesThrough (·.register handle) := by
  intro engine config rules pumpError
  show (engine.inGuise config rules pumpError).register handle =
    (engine.register handle).inGuise config rules pumpError
  unfold register
  by_cases hregistered : engine.isRegistered handle = true
  · rw [if_pos hregistered]
    exact if_pos hregistered
  · rw [if_neg hregistered]
    refine (if_neg hregistered).trans ?_
    cases hcard : engine.forest.get? handle with
    | none => simp [inGuise, hcard]
    | some card => simp [inGuise, hcard]

theorem seesThrough_addCard (card : Card) : SeesThrough (·.addCard card) :=
  fun engine => seesThrough_register engine.forest.next
    { engine with forest := engine.forest.insert card }

theorem seesThrough_unregister (handle : Handle) : SeesThrough (·.unregister handle) := by
  intro engine config rules pumpError
  show (engine.inGuise config rules pumpError).unregister handle =
    (engine.unregister handle).inGuise config rules pumpError
  unfold unregister
  by_cases hregistered : engine.isRegistered handle = true
  · rw [if_pos hregistered]
    exact if_pos hregistered
  · rw [if_neg hregistered]
    exact if_neg hregistered

theorem seesThrough_unsubscribe (handle : Handle) (listener : ListenerId) :
    SeesThrough (·.unsubscribe handle listener) := by
  intro engine config rules pumpError
  show (engine.inGuise config rules pumpError).unsubscribe handle listener =
    (engine.unsubscribe handle listener).inGuise config rules pumpError
  unfold unsubscribe
  by_cases hsubscribed : engine.isSubscribed handle listener = true
  · rw [if_pos hsubscribed]
    exact if_pos hsubscribed
  · rw [if_neg hsubscribed]
    exact if_neg hsubscribed

theorem seesThrough_announce (raised : Raised) : SeesThrough (·.announce raised) := by
  intro engine config rules pumpError
  show (engine.inGuise config rules pumpError).announce raised =
    (engine.announce raised).inGuise config rules pumpError
  have hforest : (engine.inGuise config rules pumpError).forest = engine.forest := rfl
  unfold announce
  rw [hforest]
  cases engine.forest.get? raised.source with
  | none => rfl
  | some card =>
    simp only [foldl_hand]
    rfl

theorem seesThrough_deliver : SeesThrough deliver := by
  intro engine config rules pumpError
  have hevents : ∀ (events : List Raised) (here : Engine),
      events.foldl announce (here.inGuise config rules pumpError) =
        (events.foldl announce here).inGuise config rules pumpError := by
    intro events
    induction events with
    | nil => exact fun _ => rfl
    | cons raised rest ih =>
      intro here
      have hfirst := seesThrough_announce raised here config rules pumpError
      exact (congrArg (rest.foldl announce) hfirst).trans (ih _)
  exact hevents engine.forest.outbox { engine with forest := engine.forest.emptied }

theorem seesThrough_leave : SeesThrough leave := by
  intro engine config rules pumpError
  unfold leave
  by_cases hlast : engine.depth ≤ 1
  · rw [if_pos hlast]
    exact if_pos hlast
  · rw [if_neg hlast]
    exact if_neg hlast

/-! ## Relations between guises -/

/-- A relation between guises that choose the same rules for every event. It is kept by what sees
through them, as long as no event is entered or left. -/
structure Guises (rel : Engine → Engine → Prop) : Prop where
  guise {engine other : Engine} (h : rel engine other) :
    ∃ config rules pumpError, other = engine.inGuise config rules pumpError
  change {engine other : Engine} (h : rel engine other) (change : Engine → Engine)
    (hchange : SeesThrough change) (hdepth : (change engine).depth = engine.depth) :
    rel (change engine) (change other)
  matched {engine other : Engine} (h : rel engine other) (raised : Raised) :
    other.config.choose (other.findMatches raised).1 =
        engine.config.choose (engine.findMatches raised).1 ∧
      (other.findMatches raised).2.generator = (engine.findMatches raised).2.generator

namespace Guises

variable {rel inner : Engine → Engine → Prop} {engine other : Engine}

section

variable (hrel : Guises rel)

include hrel

theorem forest_eq (h : rel engine other) : other.forest = engine.forest := by
  obtain ⟨_, _, _, rfl⟩ := hrel.guise h
  rfl

theorem registry_eq (h : rel engine other) : other.registry = engine.registry := by
  obtain ⟨_, _, _, rfl⟩ := hrel.guise h
  rfl

theorem withForest (h : rel engine other) (forest : Forest) :
    rel { engine with forest } { other with forest } :=
  hrel.change h ({ · with forest }) (fun _ _ _ _ => rfl) rfl

theorem congruence : Congruence rel where
  factory h := by
    obtain ⟨_, _, _, rfl⟩ := hrel.guise h
    rfl
  next h := by rw [hrel.forest_eq h]
  contains h _ := by rw [hrel.forest_eq h]
  owner h _ := by rw [hrel.forest_eq h]
  selected h _ _ := by
    unfold selected
    rw [hrel.forest_eq h]
  handles h := by rw [hrel.registry_eq h]
  addCard {engine _} h _ card _ :=
    hrel.change h _ (seesThrough_addCard card) (sameSchedule_addCard engine card).depth
  edit h handles change _ :=
    hrel.change h (·.modifyCards handles change) (fun _ _ _ _ => rfl) rfl
  emit h source event := by
    rw [hrel.forest_eq h]
    exact hrel.withForest h _
  refused h _ _ _ _ hattach := by rw [hrel.forest_eq h, hattach]
  attached h _ _ _ forest hattach :=
    ⟨forest, by rw [hrel.forest_eq h, hattach], hrel.withForest h forest⟩
  unremoved h _ _ _ hremove := by rw [hrel.forest_eq h, hremove]
  removed h _ _ _ forest hremove :=
    ⟨forest, by rw [hrel.forest_eq h, hremove], hrel.withForest h forest⟩
  fire h context :=
    hrel.change h (fun engine => engine.record (.fired engine.depth context))
      (fun _ _ _ _ => rfl) rfl
  matched {engine other} h raised := by
    obtain ⟨hchosen, hgenerator⟩ := hrel.matched h raised
    refine ⟨hchosen, ?_⟩
    show rel { engine with generator := (engine.findMatches raised).2.generator }
      { other with generator := (other.findMatches raised).2.generator }
    rw [hgenerator]
    exact hrel.change h ({ · with generator := _ }) (fun _ _ _ _ => rfl) rfl

theorem deliver (h : rel engine other) : rel engine.deliver other.deliver :=
  hrel.change h _ seesThrough_deliver (depth_deliver engine)

theorem synchrony (hinner : Guises inner)
    (henter : ∀ engine other, rel engine other → inner engine.enter other.enter)
    (hleave : ∀ engine other, inner engine other → rel engine.leave other.leave)
    (hconfig : ∀ engine other, rel engine other →
      other.config.maxEventsPerPump = engine.config.maxEventsPerPump) :
    Synchrony rel inner where
  accord := hinner.congruence.accord
  moves := hinner.congruence.moves (.modify fun _ _ => hinner.deliver)
  enter := henter _ _
  leave := hleave _ _
  isIdle h := by
    obtain ⟨_, _, _, rfl⟩ := hrel.guise h
    rfl
  config := hconfig _ _
  queue h := by
    obtain ⟨_, _, _, rfl⟩ := hrel.guise h
    rfl
  pumping h pumping := hrel.change h ({ · with pumping }) (fun _ _ _ _ => rfl) rfl
  taken h raised queue :=
    hrel.change h (fun engine => { engine with queue }.record (.taken raised))
      (fun _ _ _ _ => rfl) rfl

/-- Settling is the same in both guises, if they pump alike and keep alike what a pump fails with. -/
theorem settle (hsync : Synchrony rel inner) {left right : Invoker}
    (hinvoke : CallbacksMirror inner left right)
    (hauto : ∀ engine other, rel engine other → other.config.autoPump = engine.config.autoPump)
    (hkept : ∀ engine other pumpError, rel engine other →
      rel { engine with pumpError } { other with pumpError }) :
    Mirrors rel (Engine.settle left) (Engine.settle right) := by
  intro engine other h
  have hdelivered := hrel.deliver h
  rw [start_settle, start_settle, hrel.forest_eq h, hauto _ _ hdelivered, hsync.isIdle hdelivered]
  split
  · exact .ended _ h
  · split
    · exact hsync.pumpQuietly hinvoke hkept _ _ hdelivered
    · exact .ended _ hdelivered

/-- Operations that raise no event and run no rule are the same in both guises, if rules are
accepted alike and the error kept from a pump is not asked for. -/
theorem performStill {left right : Invoker} {operation : Operation}
    (hsettles : operation.settles = false) (hserves : operation.serves = false)
    (hrules : ∀ rule ∈ operation.rules, Mirrors rel (addRule rule) (addRule rule))
    (hread : operation ≠ .takePumpError) :
    Mirrors rel (Engine.perform left operation) (Engine.perform right operation) := by
  intro engine other h
  have hforest := hrel.forest_eq h
  have hregistered (handle : Handle) : other.isRegistered handle = engine.isRegistered handle := by
    unfold isRegistered
    rw [hrel.registry_eq h]
  cases operation with
  | addCard card =>
    simp only [Engine.perform, start_get_bind, start_modify_bind, hforest]
    exact .ended _ (hrel.change h _ (seesThrough_addCard card) (sameSchedule_addCard engine card).depth)
  | setFactory factory =>
    exact .ended _ (hrel.change h ({ · with factory := some factory })
      (fun _ _ _ _ => rfl) rfl)
  | registerCard handle =>
    rw [start_registerCard, start_registerCard, hforest, hregistered]
    split
    · exact .ended _ (hrel.change h _ (seesThrough_register handle)
        (sameSchedule_register engine handle).depth)
    · exact .ended _ h
  | unregisterCard handle =>
    simp only [Engine.perform, start_get_bind, start_set_bind, hregistered]
    exact .ended _ (hrel.change h _ (seesThrough_unregister handle)
      (sameSchedule_unregister engine handle).depth)
  | subscribe handle note =>
    have hnext : other.nextListener = engine.nextListener := by
      obtain ⟨_, _, _, rfl⟩ := hrel.guise h
      rfl
    rw [start_subscribe, start_subscribe, hforest, hnext]
    split
    · exact .ended _ (hrel.change h (·.subscribe handle note) (fun _ _ _ _ => rfl) rfl)
    · exact .ended _ h
  | unsubscribe handle listener =>
    have hsubscribed : other.isSubscribed handle listener =
        engine.isSubscribed handle listener := by
      unfold isSubscribed
      rw [hforest]
    simp only [Engine.perform, start_get_bind, start_set_bind, hsubscribed]
    exact .ended _ (hrel.change h _ (seesThrough_unsubscribe handle listener)
      (sameSchedule_unsubscribe engine handle listener).depth)
  | editCard handle edit =>
    have happlies : other.editApplies handle edit = engine.editApplies handle edit := by
      unfold editApplies
      rw [hforest]
    simp only [Engine.perform, start_get_bind, start_set_bind, happlies]
    exact .ended _ (hrel.change h (·.editCard handle edit) (fun _ _ _ _ => rfl) rfl)
  | registerRule rule =>
    exact Mirrors.bind (hrules rule List.mem_cons_self) (fun _ => .pure _) _ _ h
  | registerRules rules => exact Mirrors.bind (.forM hrules) (fun _ => .pure _) _ _ h
  | takePumpError => exact absurd rfl hread
  | createCard | attach | removeChild | detach | raise | tickAll => cases hsettles
  | pump | pumpAll | process => cases hserves

/-- An operation is the same in both guises, if what it has to do with their differences is. -/
theorem perform (hsync : Synchrony rel inner) {left right : Invoker} {operation : Operation}
    (hinvoke : CallbacksMirror inner left right)
    (hsettle : operation.settles = true → Mirrors rel (Engine.settle left) (Engine.settle right))
    (hrules : ∀ rule ∈ operation.rules, Mirrors rel (addRule rule) (addRule rule))
    (hread : operation = .takePumpError →
      Mirrors rel (Engine.perform left .takePumpError) (Engine.perform right .takePumpError)) :
    Mirrors rel (Engine.perform left operation) (Engine.perform right operation) := by
  cases hsettles : operation.settles with
  | true =>
    have hmoves := hrel.congruence.moves (hsettle hsettles)
    rw [← performSettling_settle left, ← performSettling_settle right]
    exact hmoves.performSettling hrel.congruence.accord left right hsettles
  | false =>
    cases hserves : operation.serves with
    | true => exact hsync.perform hinvoke hserves
    | false =>
      by_cases htaken : operation = .takePumpError
      · subst htaken
        exact hread rfl
      · exact hrel.performStill hsettles hserves hrules htaken

end

end Guises

end Engine

end CardRules
