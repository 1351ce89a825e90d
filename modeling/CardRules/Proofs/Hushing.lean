import CardRules.Proofs.Declarative
import CardRules.Proofs.Forest.Hushing
import CardRules.Proofs.Hearing
import CardRules.Proofs.Pumping
import CardRules.Proofs.Synchrony

/-!
Engines without listeners from outside. To hush an engine is to take these listeners off its cards
and out of its table, and what they heard out of its journal. Whatever an engine does, the hushed one
does too, with one exception: where nobody but listeners from outside hears the events of an
operation, no event is left for the hushed engine, and then it does not pump on its own account.
-/

namespace CardRules

open EngineM

/-! ## Rules -/

/-- A requirement that does not depend on listeners from outside. Only one of the user's own could. -/
def Requirement.IsDeaf : Requirement → Prop
  | .predicate holds => ∀ forest selection, holds forest.hushed selection = holds forest selection
  | .not requirement => requirement.IsDeaf
  | .select .. | .property .. | .chance _ => True

/-- A rule whose requirements do not depend on listeners from outside. -/
def Rule.IsDeaf (rule : Rule) : Prop := ∀ requirement ∈ rule.requirements, requirement.IsDeaf

section

variable {σ : Type} (toss : Float → StateM σ Bool) (forest : Forest)

theorem Requirement.evaluate_hushed {requirement : Requirement} (h : requirement.IsDeaf)
    (selection : Selection) :
    requirement.evaluate toss forest.hushed selection =
      requirement.evaluate toss forest selection := by
  induction requirement with
  | select selector min max collect =>
    unfold evaluate
    rw [forest.select_hushed]
  | property selector name comparison bound =>
    have hproperty : propertyHolds forest.hushed name comparison bound =
        propertyHolds forest name comparison bound := by
      funext handle
      unfold propertyHolds
      rw [forest.get?_hushed]
      cases forest.get? handle <;> rfl
    unfold evaluate
    rw [forest.select_hushed, hproperty]
  | chance probability => rfl
  | not requirement ih =>
    unfold evaluate
    rw [ih h]
  | predicate holds =>
    unfold evaluate
    rw [h forest selection]

theorem Rule.gatherMatched_hushed {requirements : List Requirement}
    (h : ∀ requirement ∈ requirements, requirement.IsDeaf) (selection : Selection) :
    gatherMatched toss forest.hushed selection requirements =
      gatherMatched toss forest selection requirements := by
  induction requirements generalizing selection with
  | nil => rfl
  | cons requirement rest ih =>
    unfold gatherMatched
    rw [requirement.evaluate_hushed toss forest (h requirement List.mem_cons_self)]
    congr 1
    funext found
    cases found with
    | none => rfl
    | some found => exact ih (fun other hmem => h other (List.mem_cons_of_mem _ hmem)) _

theorem Rule.gather_hushed {rule : Rule} (h : rule.IsDeaf) (raised : Raised) :
    rule.gather toss forest.hushed raised = rule.gather toss forest raised := by
  unfold gather
  simp only [Forest.containerOf_hushed, Rule.gatherMatched_hushed toss forest h]

theorem Match.gatherAll_hushed {rules : List Rule} (h : ∀ rule ∈ rules, rule.IsDeaf)
    (raised : Raised) :
    gatherAll toss forest.hushed raised rules = gatherAll toss forest raised rules := by
  induction rules with
  | nil => rfl
  | cons rule rest ih =>
    unfold gatherAll
    rw [rule.gather_hushed toss forest (h rule List.mem_cons_self),
      ih fun other hmem => h other (List.mem_cons_of_mem _ hmem)]

end

/-! ## Engines -/

/-- Whether a line of the journal is about a listener from outside. -/
def Entry.isHeard : Entry → Bool
  | .heard .. => true
  | _ => false

namespace Engine

/-- The engine without listeners from outside. -/
def hushed (engine : Engine) : Engine :=
  { engine with
    forest := engine.forest.hushed
    listeners := []
    subscriptions := 0
    journal := engine.journal.filter (!·.isHeard) }

variable (engine : Engine)

/-! ## Events -/

theorem hushed_record {entry : Entry} (h : entry.isHeard = false) :
    (engine.record entry).hushed = engine.hushed.record entry := by
  unfold hushed record
  simp [h]

theorem hushed_enqueue (raised : Raised) :
    (engine.enqueue raised).hushed = engine.hushed.enqueue raised := by
  have hprocessing : engine.hushed.isProcessing = engine.isProcessing := rfl
  unfold enqueue
  rw [hprocessing]
  cases engine.isProcessing with
  | true => exact hushed_record { engine with deferred := engine.deferred ++ [raised] } rfl
  | false => exact hushed_record { engine with queue := engine.queue ++ [raised] } rfl

/-- A listener from outside hears an event, which leaves no trace in the hushed engine. -/
theorem hushed_hand_external (raised : Raised) (listener : ListenerId) :
    (engine.hand raised (.external listener)).hushed = engine.hushed := by
  simp only [hand]
  split
  · simp [hushed, record, Entry.isHeard]
  · rfl

theorem hushed_foldl_hand (raised : Raised) (listeners : List Listener) :
    (listeners.foldl (hand raised) engine).hushed =
      (listeners.filter (· = .scheduler)).foldl (hand raised) engine.hushed := by
  induction listeners generalizing engine with
  | nil => rfl
  | cons listener rest ih =>
    rw [List.foldl_cons, ih]
    cases listener with
    | scheduler =>
      rw [List.filter_cons, if_pos (decide_eq_true rfl), List.foldl_cons]
      exact congrArg (List.foldl (hand raised) · _) (hushed_enqueue engine raised)
    | external listener =>
      rw [List.filter_cons, if_neg (by simp), hushed_hand_external]

theorem hushed_announce (raised : Raised) :
    (engine.announce raised).hushed = engine.hushed.announce raised := by
  have hcard : engine.hushed.forest.get? raised.source =
      (engine.forest.get? raised.source).map Card.hushed := engine.forest.get?_hushed _
  unfold announce
  rw [hcard]
  cases engine.forest.get? raised.source with
  | none => rfl
  | some card => exact engine.hushed_foldl_hand raised card.listeners

/-- Nobody hears an event in the hushed engine if the scheduler does not. -/
theorem announce_hushed_of_not_scheduled {raised : Raised}
    (h : engine.forest.scheduled raised.source = false) :
    engine.hushed.announce raised = engine.hushed := by
  have hcard : engine.hushed.forest.get? raised.source =
      (engine.forest.get? raised.source).map Card.hushed := engine.forest.get?_hushed _
  unfold announce
  rw [hcard]
  cases hfound : engine.forest.get? raised.source with
  | none => rfl
  | some card =>
    have hsilent : card.hushed.listeners.isEmpty = true := by
      rw [Card.isEmpty_listeners_hushed]
      simpa [Forest.scheduled, hfound] using h
    simp only [Option.map_some, List.isEmpty_iff.1 hsilent, List.foldl_nil]

theorem hushed_foldl_announce (events : List Raised) :
    (events.foldl announce engine).hushed =
      (events.filter (engine.forest.scheduled ·.source)).foldl announce engine.hushed := by
  induction events generalizing engine with
  | nil => rfl
  | cons raised rest ih =>
    have hforest : (engine.announce raised).forest = engine.forest := by
      unfold announce
      split
      · rw [foldl_hand]
      · rfl
    rw [List.foldl_cons, ih, hforest, hushed_announce]
    by_cases hscheduled : engine.forest.scheduled raised.source = true
    · rw [List.filter_cons, if_pos hscheduled, List.foldl_cons]
    · rw [List.filter_cons, if_neg hscheduled,
        engine.announce_hushed_of_not_scheduled (Bool.eq_false_iff.2 hscheduled)]

theorem hushed_deliver : engine.deliver.hushed = engine.hushed.deliver :=
  hushed_foldl_announce { engine with forest := engine.forest.emptied } engine.forest.outbox

/-! ## Cards -/

theorem hushed_register (houtbox : engine.forest.outbox = []) (handle : Handle) :
    (engine.register handle).hushed = engine.hushed.register handle := by
  have hregistered : engine.hushed.isRegistered handle = engine.isRegistered handle := rfl
  have hcard : engine.hushed.forest.get? handle =
      (engine.forest.get? handle).map Card.hushed := engine.forest.get?_hushed _
  unfold register
  rw [hregistered, hcard]
  split
  · rfl
  · cases engine.forest.get? handle with
    | none => rfl
    | some card =>
      let index := numberFor engine.registry card
      have hforest := engine.forest.hushed_modify_of_outbox houtbox
        (fun card => { card with index := some index }.subscribe .scheduler)
        (fun card => { card with index := some index }.subscribe .scheduler)
        (fun card => Card.hushed_subscribe_scheduler { card with index := some index }) handle
      exact congrArg (fun forest => { engine.hushed with
        forest, registry := engine.registry.insert ⟨card.id, index⟩ handle }) hforest

theorem hushed_addCard (houtbox : engine.forest.outbox = []) {card : Card} (hfresh : card.IsFresh) :
    (engine.addCard card).hushed = engine.hushed.addCard card := by
  have hforest := engine.forest.hushed_insert houtbox card
  rw [Card.hushed_of_listeners_eq_nil hfresh.listeners] at hforest
  have hregister := hushed_register { engine with forest := engine.forest.insert card } houtbox
    engine.forest.next
  unfold addCard
  rw [hregister]
  show Engine.register { engine.hushed with forest := (engine.forest.insert card).hushed } _ = _
  rw [hforest]
  exact congrArg (register _) engine.forest.next_hushed.symm

theorem hushed_unregister (houtbox : engine.forest.outbox = []) (handle : Handle) :
    (engine.unregister handle).hushed = engine.hushed.unregister handle := by
  have hregistered : engine.hushed.isRegistered handle = engine.isRegistered handle := rfl
  unfold unregister
  rw [hregistered]
  split
  · have hforest := engine.forest.hushed_modify_of_outbox houtbox (·.unsubscribe .scheduler)
      (·.unsubscribe .scheduler) Card.hushed_unsubscribe_scheduler handle
    exact congrArg (fun forest => { engine.hushed with
      forest, registry := engine.registry.erase handle }) hforest
  · rfl

/-- Subscriptions of listeners from outside leave no trace in the hushed engine. -/
theorem hushed_subscribe (houtbox : engine.forest.outbox = []) (handle : Handle) (note : Data) :
    (engine.subscribe handle note).hushed = engine.hushed := by
  have hforest := engine.forest.hushed_modify_of_hushed_eq houtbox
    (·.subscribe (.external engine.nextListener))
    (fun card => card.hushed_subscribe_external engine.nextListener) handle
  exact congrArg (fun forest => { engine.hushed with forest }) hforest

theorem hushed_unsubscribe (houtbox : engine.forest.outbox = []) (handle : Handle)
    (listener : ListenerId) : (engine.unsubscribe handle listener).hushed = engine.hushed := by
  unfold unsubscribe
  split
  · have hforest := engine.forest.hushed_modify_of_hushed_eq houtbox
      (·.unsubscribe (.external listener)) (·.hushed_unsubscribe_external listener) handle
    exact congrArg (fun forest => { engine.hushed with forest }) hforest
  · rfl

theorem hushed_modify {change : Card → Card} (hchange : Card.IgnoresListeners change)
    (forest : Forest) (handle : Handle) :
    (forest.modify handle change).hushed = forest.hushed.modify handle change := by
  have hlisteners (card : Card) : (change card).listeners = card.listeners := by
    have hsame := congrArg Card.listeners (hchange card card.listeners)
    exact hsame
  refine forest.hushed_modify (fun card => ?_) hlisteners handle
  refine Eq.trans ?_ (hchange card _).symm
  unfold Card.hushed
  rw [hlisteners]

theorem ignoresListeners_apply (edit : CardEdit) : Card.IgnoresListeners edit.apply := by
  intro card listeners
  cases edit with
  | addProperty property =>
    have hproperty : ({ card with listeners } : Card).property? property.name =
        card.property? property.name := rfl
    simp only [CardEdit.apply, hproperty]
    split <;> rfl
  | _ => rfl

theorem hushed_editCard (handle : Handle) (edit : CardEdit) :
    (engine.editCard handle edit).hushed = engine.hushed.editCard handle edit :=
  congrArg (fun forest => { engine.hushed with forest })
    (hushed_modify (ignoresListeners_apply edit) engine.forest handle)

theorem editApplies_hushed (handle : Handle) (edit : CardEdit) :
    engine.hushed.editApplies handle edit = engine.editApplies handle edit := by
  have hcard : engine.hushed.forest.get? handle =
      (engine.forest.get? handle).map Card.hushed := engine.forest.get?_hushed _
  unfold editApplies
  rw [hcard]
  cases engine.forest.get? handle with
  | none => rfl
  | some card => cases edit <;> rfl

theorem outbox_modifyCards (handles : List Handle) (change : Card → Card) :
    (engine.modifyCards handles change).forest.outbox = engine.forest.outbox := by
  have hforest (forest : Forest) :
      (handles.foldl (·.modify · change) forest).outbox = forest.outbox := by
    induction handles generalizing forest with
    | nil => rfl
    | cons handle rest ih => rw [List.foldl_cons, ih]; rfl
  exact hforest engine.forest

theorem hushed_modifyCards (handles : List Handle) {change : Card → Card}
    (hchange : Card.IgnoresListeners change) :
    (engine.modifyCards handles change).hushed = engine.hushed.modifyCards handles change := by
  have hforest (forest : Forest) : (handles.foldl (·.modify · change) forest).hushed =
      handles.foldl (·.modify · change) forest.hushed := by
    induction handles generalizing forest with
    | nil => rfl
    | cons handle rest ih => rw [List.foldl_cons, ih, hushed_modify hchange, List.foldl_cons]
  exact congrArg (fun forest => { engine.hushed with forest }) (hforest engine.forest)

/-! ## The hushed engine in step -/

/-- No rule depends on listeners from outside, and the factory makes fresh cards. -/
structure Deaf (engine : Engine) : Prop where
  rules : ∀ rule ∈ engine.rules, rule.IsDeaf
  fresh : ∀ factory, engine.factory = some factory → factory.MakesFresh

/-- An engine so deep in events and with nothing in its outbox, and the same engine hushed. -/
structure HushedAt (depth : Nat) (engine other : Engine) : Prop where
  hushed : engine.hushed = other
  deaf : engine.Deaf
  depth : engine.depth = depth
  outbox : engine.forest.outbox = []

/-- Settling brings the hushed engine to the hushed one, wherever it begins. -/
def SettlesHushed (depth : Nat) (settle settle' : EngineM Unit) : Prop :=
  ∀ engine : Engine, engine.Deaf → engine.depth = depth →
    Ends (HushedAt depth) (settle.start engine) (settle'.start engine.hushed)

section

variable {depth : Nat} {engine other after after' : Engine}

theorem Deaf.ofSame (h : engine.Deaf) (hrules : after.rules = engine.rules)
    (hfactory : after.factory = engine.factory) : after.Deaf :=
  ⟨hrules ▸ h.rules, hfactory ▸ h.fresh⟩

theorem HushedAt.step (h : HushedAt depth engine other) {later : Nat}
    (hhushed : after.hushed = after') (hrules : after.rules = engine.rules)
    (hfactory : after.factory = engine.factory) (hdepth : after.depth = later)
    (houtbox : engine.forest.outbox = [] → after.forest.outbox = []) :
    HushedAt later after after' :=
  ⟨hhushed, h.deaf.ofSame hrules hfactory, hdepth, houtbox h.outbox⟩

theorem HushedAt.addCard (h : HushedAt depth engine other) {card : Card} (hfresh : card.IsFresh) :
    HushedAt depth (engine.addCard card) (other.addCard card) := by
  refine h.step ?_ (rules_register _ _) (factory_register _ _)
    ((sameSchedule_addCard engine card).depth.trans h.depth)
    (sameStanding_addCard engine card).outbox
  rw [hushed_addCard engine h.outbox hfresh, h.hushed]

theorem Deaf.isFresh_of_make? (h : engine.Deaf) {id : String} {card : Card}
    (hmade : engine.maker.make? id = some card) : card.IsFresh := by
  obtain ⟨factory, hfactory, hmake⟩ := exists_factory_of_make? hmade
  exact h.fresh factory hfactory id card hmake

/-- The same rules are chosen in the hushed engine, and the same chances drawn. -/
theorem findMatches_hushed (h : engine.Deaf) (raised : Raised) :
    (engine.hushed.findMatches raised).1 = (engine.findMatches raised).1 ∧
      (engine.findMatches raised).2.hushed = (engine.hushed.findMatches raised).2 := by
  have hdeaf : ∀ rule ∈ engine.candidates raised.event, rule.IsDeaf := fun rule hmem =>
    h.rules rule (List.mem_of_mem_filter (List.mem_of_mem_filter hmem))
  have hgathered := Match.gatherAll_hushed Random.Generator.chance engine.forest hdeaf raised
  have hcandidates : engine.hushed.candidates raised.event = engine.candidates raised.event := rfl
  have hforest : engine.hushed.forest = engine.forest.hushed := rfl
  unfold findMatches
  rw [hcandidates, hforest, hgathered]
  exact ⟨rfl, rfl⟩

theorem accord_hushedAt (depth : Nat) : Accord (HushedAt depth) where
  equipped h := by rw [← h.hushed]; rfl
  next {engine _} h := by rw [← h.hushed]; exact engine.forest.next_hushed
  parts h id := by rw [← h.hushed]; rfl
  unmade h id hmade := by rw [← h.hushed]; exact hmade
  made {engine _} h id card hmade := by
    refine ⟨card, ?_, h.addCard (h.deaf.isFresh_of_make? hmade)⟩
    rw [← h.hushed]
    exact hmade
  selected {engine _} h selector context := by
    rw [← h.hushed]
    exact engine.forest.select_hushed selector context.selection
  edit {engine _} h handles change hchange := by
    refine h.step ?_ rfl rfl h.depth ?_
    · rw [hushed_modifyCards engine handles hchange, h.hushed]
    · exact (outbox_modifyCards engine handles change).trans
  fire h context := by
    refine h.step ?_ rfl rfl h.depth id
    rw [hushed_record _ rfl, ← h.hushed]
    rfl
  matched {engine _} h raised := by
    obtain ⟨hfound, hdrawn⟩ := findMatches_hushed h.deaf raised
    rw [← h.hushed, hfound]
    exact ⟨rfl, h.step hdrawn rfl rfl h.depth id⟩

/-! ## Settling -/

section

variable {settle settle' : EngineM Unit} (hsettle : SettlesHushed depth settle settle')

include hsettle

theorem SettlesHushed.withForest (h : HushedAt depth engine other) {forest forest' : Forest}
    (hforest : forest.hushed = forest') :
    Ends (HushedAt depth) (settle.start { engine with forest })
      (settle'.start { other with forest := forest' }) := by
  obtain ⟨rfl, hdeaf, hdepth, -⟩ := h
  subst hforest
  exact hsettle { engine with forest } ⟨hdeaf.rules, hdeaf.fresh⟩ hdepth

theorem SettlesHushed.atOnce (h : HushedAt depth engine other) :
    Ends (HushedAt depth) (settle.start engine) (settle'.start other) := by
  rw [← h.hushed]
  exact hsettle engine h.deaf h.depth

theorem SettlesHushed.moves : Moves (HushedAt depth) settle settle' where
  attach parent child intrinsic engine other h := by
    have hattach : other.forest.attach parent child intrinsic =
        (engine.forest.attach parent child intrinsic).map Forest.hushed := by
      rw [← h.hushed]
      exact engine.forest.attach_hushed parent child intrinsic
    rw [start_attach, start_attach, hattach]
    cases engine.forest.attach parent child intrinsic with
    | error error => exact .ended _ h
    | ok forest => exact hsettle.withForest h rfl
  removeChild parent child force engine other h := by
    have hremove : other.forest.remove? parent child force =
        (engine.forest.remove? parent child force).map Forest.hushed := by
      rw [← h.hushed]
      exact engine.forest.remove?_hushed parent child force
    rw [start_removeChild, start_removeChild, hremove]
    cases engine.forest.remove? parent child force with
    | none => exact (hsettle.atOnce h).map _
    | some forest => exact (hsettle.withForest h rfl).map _
  detach child force engine other h := by
    have hdetach : other.forest.detach? child force =
        (engine.forest.detach? child force).map Forest.hushed := by
      rw [← h.hushed]
      exact engine.forest.detach?_hushed child force
    rw [start_detach, start_detach, hdetach]
    cases engine.forest.detach? child force with
    | none => exact (hsettle.atOnce h).map _
    | some forest => exact (hsettle.withForest h rfl).map _
  raise raised engine other h := by
    have hforest : other.forest = engine.forest.hushed := by
      rw [← h.hushed]
      rfl
    rw [start_raise, start_raise, hforest, Forest.contains_hushed]
    split
    · exact hsettle.withForest h (engine.forest.hushed_emit raised.source raised.event)
    · exact .ended _ h
  tickAll engine other h := by
    have hticks := engine.forest.hushed_foldl_emit engine.registry.handles .tick
    rw [start_tickAll, start_tickAll]
    obtain ⟨rfl, hdeaf, hdepth, houtbox⟩ := h
    exact hsettle.withForest ⟨rfl, hdeaf, hdepth, houtbox⟩ hticks

end

theorem HushedAt.ofDeliver (hdeaf : engine.Deaf) (hdepth : engine.depth = depth) :
    HushedAt depth engine.deliver engine.hushed.deliver := by
  refine ⟨hushed_deliver engine, hdeaf.ofSame (rules_deliver engine) (factory_deliver engine),
    (depth_deliver engine).trans hdepth, ?_⟩
  rw [forest_deliver]
  rfl

/-- While an event is processed, settling does nothing but to hand events out. -/
theorem settlesHushed_inside (depth : Nat) :
    SettlesHushed depth settleInside settleInside :=
  fun _ hdeaf hdepth => .ended (.ok ()) (.ofDeliver hdeaf hdepth)

theorem synchrony_hushedAt (depth : Nat) : Synchrony (HushedAt depth) (HushedAt (depth + 1)) where
  accord := accord_hushedAt (depth + 1)
  moves := (settlesHushed_inside (depth + 1)).moves
  enter h := by
    refine h.step ?_ rfl rfl (congrArg (· + 1) h.depth) id
    rw [← h.hushed]
    rfl
  leave {engine _} h := by
    have hdepth := @depth_leave { engine with depth } engine h.depth
    have hsame : engine.leave.hushed = engine.hushed.leave ∧ engine.leave.rules = engine.rules ∧
        engine.leave.factory = engine.factory ∧ engine.leave.forest = engine.forest := by
      unfold leave
      rw [show engine.hushed.depth = engine.depth from rfl]
      split
      · exact ⟨rfl, rfl, rfl, rfl⟩
      · exact ⟨rfl, rfl, rfl, rfl⟩
    obtain ⟨hhushed, hrules, hfactory, hforest⟩ := hsame
    exact h.step (hhushed.trans (congrArg leave h.hushed)) hrules hfactory hdepth
      (congrArg Forest.outbox hforest).trans
  isIdle h := by rw [← h.hushed]; rfl
  config h := by rw [← h.hushed]; rfl
  queue h := by rw [← h.hushed]; rfl
  pumping h pumping := by
    refine h.step ?_ rfl rfl h.depth id
    rw [← h.hushed]
    rfl
  taken {engine _} h raised queue := by
    refine h.step ?_ rfl rfl h.depth id
    rw [← h.hushed]
    exact hushed_record { engine with queue } rfl

end

end Engine

end CardRules
