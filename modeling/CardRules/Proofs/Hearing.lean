import CardRules.Proofs.Listening
import CardRules.Proofs.Queues

/-!
What is raised is delivered. The scheduler takes an event of a registered card on, once, and what
the table of listeners has for the card is heard. Only after that an idle engine pumps. Where an
operation is refused, nothing happens at all.
-/

namespace CardRules

/-- What a line of the journal says that was heard: by whom, with which note, and which event. -/
def Entry.heard? : Entry → Option (ListenerId × Data × Raised)
  | .heard listener note raised => some (listener, note, raised)
  | _ => none

/-! ## The outbox -/

namespace Forest

variable {forest after : Forest} {parent child : Handle}

/-- Whether anybody listens to a card. -/
def listened (forest : Forest) (handle : Handle) : Bool :=
  (forest.get? handle).any (!·.listeners.isEmpty)

theorem listened_eq (h : SameView Card.listeners forest after) (handle : Handle) :
    after.listened handle = forest.listened handle := by
  have hany (found : Option Card) : found.any (!·.listeners.isEmpty) =
      (found.map Card.listeners).any (!·.isEmpty) := by
    cases found <;> rfl
  unfold listened
  rw [hany, hany, h handle]

theorem contains_of_listened {handle : Handle} (h : forest.listened handle = true) :
    forest.contains handle = true := by
  unfold listened at h
  cases hcard : forest.get? handle with
  | none => simp [hcard] at h
  | some card => exact contains_iff.2 ⟨card, hcard⟩

/-- An event goes into the outbox if anybody listens. -/
theorem outbox_emit (forest : Forest) (source : Handle) (event : Event) :
    (forest.emit source event).outbox =
      forest.outbox ++ [Raised.mk source event].filter (forest.listened ·.source) := by
  unfold emit listened
  cases h : forest.get? source with
  | none => simp [h]
  | some card => by_cases hempty : card.listeners.isEmpty <;> simp [h, hempty]

theorem outbox_foldl_emit (handles : List Handle) (event : Event) (forest : Forest) :
    (handles.foldl (·.emit · event) forest).outbox =
      forest.outbox ++ (handles.map (Raised.mk · event)).filter (forest.listened ·.source) := by
  induction handles generalizing forest with
  | nil => simp
  | cons handle rest ih =>
    have hsame (other : Handle) : (forest.emit handle event).listened other =
        forest.listened other := listened_eq (sameView_emit forest handle event) other
    rw [List.foldl_cons, ih, outbox_emit]
    simp only [hsame]
    rw [List.append_assoc, ← List.filter_append]
    rfl

/-- The event of a change of links goes into the outbox if anybody listens to the card that
moves. -/
theorem outbox_relinked {linked : Forest} {event : Event} (houtbox : linked.outbox = forest.outbox)
    (hview : SameView Card.listeners forest (linked.emit child event)) :
    (linked.emit child event).outbox =
      forest.outbox ++ [Raised.mk child event].filter (forest.listened ·.source) := by
  have hsame : linked.listened = forest.listened := by
    funext handle
    exact (listened_eq (sameView_emit linked child event) handle).symm.trans
      (listened_eq hview handle)
  rw [outbox_emit, houtbox, hsame]

theorem outbox_attach {intrinsic : Bool} (h : forest.attach parent child intrinsic = .ok after) :
    after.outbox =
      forest.outbox ++ [Raised.mk child (.added parent)].filter (forest.listened ·.source) := by
  have hview : SameView Card.listeners forest after :=
    sameView_of_attach h (fun _ => rfl) fun _ => rfl
  obtain ⟨-, -, -, -, rfl⟩ := attach_eq_ok h
  exact outbox_relinked (by rfl) hview

theorem outbox_remove? {force : Bool} (h : forest.remove? parent child force = some after) :
    after.outbox =
      forest.outbox ++ [Raised.mk child (.removed parent)].filter (forest.listened ·.source) := by
  have hview : SameView Card.listeners forest after :=
    sameView_of_remove? h (fun _ => rfl) fun _ => rfl
  obtain ⟨_, -, -, -, rfl⟩ := remove?_eq_some h
  exact outbox_relinked (by rfl) hview

end Forest

namespace Engine

variable {engine middle after : Engine} {forest : Forest} {events others : List Raised}

/-- The events that the scheduler takes on. -/
def takenOn (engine : Engine) (events : List Raised) : List Raised :=
  events.filter (engine.isRegistered ·.source)

/-- What is to be heard of an event: what the table has under the numbers of the external listeners
of its card, in order. -/
def hearings (engine : Engine) (raised : Raised) : List (ListenerId × Data × Raised) :=
  ((engine.audience raised.source).filterMap fun id => engine.listeners.find? (·.1 = id)).map
    fun (id, note) => (id, note, raised)

/-- Events were delivered, in order and each of them once. The scheduler put those of registered
cards at the end of the queue, or of the deferred events while another one is processed; the
external listeners of their cards that are in the table heard them; and besides the forest nothing
else changed. -/
structure Delivers (engine : Engine) (events : List Raised) (after : Engine) : Prop where
  queue : after.queue = engine.queue ++ if engine.depth = 0 then engine.takenOn events else []
  deferred : after.deferred =
    engine.deferred ++ if engine.depth = 0 then [] else engine.takenOn events
  journal : ∃ lines, after.journal.toList = engine.journal.toList ++ lines ∧
    lines.filterMap Entry.queued? = engine.takenOn events ∧
    lines.filterMap Entry.heard? = events.flatMap engine.hearings ∧
    ∀ line ∈ lines, line.queued?.isSome ∨ line.heard?.isSome
  rest : after = { engine with
    forest := after.forest, queue := after.queue, deferred := after.deferred,
    journal := after.journal }

/-! ## One event -/

/-- What the journal says when an event is handed to a listener, by the table of listeners. -/
def linesFor (table : List (ListenerId × Data)) (processing : Bool) (raised : Raised) :
    Listener → List Entry
  | .scheduler => [.queued raised processing]
  | .external id =>
    (table.find? (·.1 = id)).toList.map fun (_, note) => .heard id note raised

theorem foldl_hand (listeners : List Listener) (raised : Raised) (engine : Engine) :
    listeners.foldl (hand raised) engine =
      { engine with
        queue := engine.queue ++
          if engine.depth = 0 then List.replicate (listeners.count .scheduler) raised else []
        deferred := engine.deferred ++
          if engine.depth = 0 then [] else List.replicate (listeners.count .scheduler) raised
        journal := engine.journal ++
          (listeners.flatMap (linesFor engine.listeners engine.isProcessing raised)).toArray } := by
  induction listeners generalizing engine with
  | nil => simp
  | cons listener rest ih =>
    rw [List.foldl_cons, ih]
    cases listener with
    | scheduler =>
      by_cases h : engine.depth = 0
      · simp [hand, enqueue, record, isProcessing, linesFor, h, List.replicate_succ]
      · simp [hand, enqueue, record, isProcessing, linesFor, h, Nat.pos_iff_ne_zero,
          List.replicate_succ]
    | external id =>
      have hcount : (Listener.external id :: rest).count .scheduler = rest.count .scheduler :=
        List.count_cons_of_ne (by simp)
      rw [hcount]
      cases h : engine.listeners.find? (·.1 = id) with
      | none => simp [hand, h, linesFor]
      | some entry => simp [hand, h, record, isProcessing, linesFor]

theorem filterMap_queued?_linesFor (table : List (ListenerId × Data)) (processing : Bool)
    (raised : Raised) (listeners : List Listener) :
    (listeners.flatMap (linesFor table processing raised)).filterMap Entry.queued? =
      List.replicate (listeners.count .scheduler) raised := by
  induction listeners with
  | nil => rfl
  | cons listener rest ih =>
    rw [List.flatMap_cons, List.filterMap_append, ih]
    cases listener with
    | scheduler => simp [linesFor, Entry.queued?, List.replicate_succ]
    | external id => cases h : table.find? (·.1 = id) <;> simp [linesFor, Entry.queued?, h]

/-- Of the listeners of a card, those from outside hear the event. -/
theorem filterMap_heard?_linesFor (table : List (ListenerId × Data)) (processing : Bool)
    (raised : Raised) (card : Card) :
    (card.listeners.flatMap (linesFor table processing raised)).filterMap Entry.heard? =
      (card.audience.filterMap fun id => table.find? (·.1 = id)).map
        fun (id, note) => (id, note, raised) := by
  unfold Card.audience
  induction card.listeners with
  | nil => rfl
  | cons listener rest ih =>
    rw [List.flatMap_cons, List.filterMap_append, ih]
    cases listener with
    | scheduler => rfl
    | external id =>
      cases h : table.find? (·.1 = id) with
      | none => simp [linesFor, Listener.external?, h]
      | some entry =>
        have hid : entry.1 = id := by simpa using List.find?_some h
        simp [linesFor, Entry.heard?, Listener.external?, h, hid]

/-- An event of a card is taken on if the card is registered, and its listeners hear it. -/
theorem delivers_announce (hagrees : engine.Agrees) {raised : Raised}
    (hknown : engine.forest.contains raised.source = true) :
    Delivers engine [raised] (engine.announce raised) ∧
      (engine.announce raised).forest = engine.forest := by
  obtain ⟨card, hcard⟩ := Forest.contains_iff.1 hknown
  have htaken : List.replicate (card.listeners.count .scheduler) raised =
      engine.takenOn [raised] := by
    rw [hagrees.heard _ card hcard]
    cases h : engine.isRegistered raised.source <;> simp [takenOn, h]
  have hheard : (card.audience.filterMap fun id => engine.listeners.find? (·.1 = id)).map
      (fun (id, note) => (id, note, raised)) = [raised].flatMap engine.hearings := by
    unfold hearings audience
    rw [List.flatMap_singleton, hcard]
    rfl
  unfold announce
  rw [hcard]
  simp only [foldl_hand, htaken]
  refine ⟨⟨rfl, rfl, ⟨_, Array.toList_append .., ?_, ?_, ?_⟩, rfl⟩, trivial⟩
  · rw [← htaken]
    exact filterMap_queued?_linesFor ..
  · rw [← hheard]
    exact filterMap_heard?_linesFor ..
  · intro line hline
    obtain ⟨listener, -, hmem⟩ := List.mem_flatMap.1 hline
    cases listener with
    | scheduler =>
      obtain rfl := List.mem_singleton.1 hmem
      exact .inl rfl
    | external id =>
      obtain ⟨_, -, rfl⟩ := List.mem_map.1 hmem
      exact .inr rfl

/-! ## All events of an outbox -/

theorem delivers_nil (engine : Engine) : Delivers engine [] engine := by
  refine ⟨?_, ?_, ⟨[], ?_, rfl, rfl, nofun⟩, rfl⟩
  · simp [takenOn]
  · simp [takenOn]
  · simp

/-- What is delivered depends on no more than who is registered and who listens. -/
theorem Delivers.rebase (h : Delivers { engine with forest } events after)
    (hview : Forest.SameView Card.audience engine.forest forest) :
    Delivers engine events after := by
  have hhearings : { engine with forest }.hearings = engine.hearings := by
    funext raised
    have haudience : { engine with forest }.audience raised.source =
        engine.audience raised.source := audience_eq hview raised.source
    unfold hearings
    rw [haudience]
  obtain ⟨hqueue, hdeferred, hjournal, hrest⟩ := h
  rw [hhearings] at hjournal
  exact ⟨hqueue, hdeferred, hjournal, hrest⟩

theorem Delivers.append (h : Delivers engine events middle)
    (hforest : middle.forest = engine.forest) (h' : Delivers middle others after) :
    Delivers engine (events ++ others) after := by
  obtain ⟨hqueue, hdeferred, ⟨lines, hlines, hqueued, hheard, hall⟩, hmiddle⟩ := h
  have hsame : middle.registry = engine.registry ∧ middle.listeners = engine.listeners ∧
      middle.depth = engine.depth := by
    rw [hmiddle]
    exact ⟨rfl, rfl, rfl⟩
  have htaken : middle.takenOn others = engine.takenOn others := by
    unfold takenOn isRegistered
    rw [hsame.1]
  have hhearings : middle.hearings = engine.hearings := by
    funext raised
    unfold hearings audience
    rw [hsame.2.1, hforest]
  obtain ⟨hqueue', hdeferred', ⟨lines', hlines', hqueued', hheard', hall'⟩, hafter⟩ := h'
  have hboth : engine.takenOn (events ++ others) =
      engine.takenOn events ++ engine.takenOn others := List.filter_append ..
  refine ⟨?_, ?_, ⟨lines ++ lines', ?_, ?_, ?_, fun line hmem => ?_⟩, ?_⟩
  · rw [hqueue', hqueue, hsame.2.2, htaken, hboth]
    split <;> simp
  · rw [hdeferred', hdeferred, hsame.2.2, htaken, hboth]
    split <;> simp
  · rw [hlines', hlines, List.append_assoc]
  · rw [List.filterMap_append, hqueued, hqueued', htaken, hboth]
  · rw [List.filterMap_append, hheard, hheard', hhearings, List.flatMap_append]
  · exact (List.mem_append.1 hmem).elim (hall line) (hall' line)
  · rw [hafter, hmiddle]

/-- Where all cards have the same listeners as before, what is delivered next is delivered on top of
what was delivered before. -/
theorem Delivers.trans (h : Delivers engine events middle)
    (hview : Forest.SameView Card.audience engine.forest middle.forest)
    (h' : Delivers middle others after) : Delivers engine (events ++ others) after := by
  -- Both deliveries are seen from the engine whose forest is already the later one.
  have hfirst : Delivers { engine with forest := middle.forest } events middle :=
    @Delivers.rebase { engine with forest := middle.forest } middle engine.forest events h
      fun handle => (hview handle).symm
  exact (hfirst.append rfl h').rebase hview

theorem delivers_foldl_announce (hagrees : engine.Agrees)
    (hknown : ∀ raised ∈ events, engine.forest.contains raised.source = true) :
    Delivers engine events (events.foldl announce engine) := by
  induction events generalizing engine with
  | nil => exact delivers_nil engine
  | cons raised rest ih =>
    obtain ⟨hfirst, hforest⟩ := delivers_announce hagrees (hknown raised List.mem_cons_self)
    -- The next event finds the same cards, registered alike.
    have hregistry : (engine.announce raised).registry = engine.registry := by rw [hfirst.rest]
    have hentries : SameEntries engine (engine.announce raised) :=
      ⟨hregistry, fun handle => by rw [hforest]⟩
    refine hfirst.append hforest (ih (hentries.agrees hagrees) fun other hmem => ?_)
    rw [hforest]
    exact hknown other (List.mem_cons_of_mem _ hmem)

/-- To a registered card the scheduler listens. -/
theorem Agrees.listened (h : engine.Agrees) {handle : Handle}
    (hregistered : engine.isRegistered handle = true) : engine.forest.listened handle = true := by
  have hkey : (engine.registry.keyOf? handle).isSome = true := hregistered
  obtain ⟨key, hkey⟩ := Option.isSome_iff_exists.1 hkey
  obtain ⟨card, hcard, -⟩ := h.named handle key hkey
  have hheard := h.heard handle card hcard
  rw [hregistered, if_pos rfl] at hheard
  unfold Forest.listened
  cases hlisteners : card.listeners with
  | nil => simp [hlisteners] at hheard
  | cons _ _ => simp [hcard, hlisteners]

theorem hearings_of_not_listened {raised : Raised}
    (h : ¬ engine.forest.listened raised.source = true) : engine.hearings raised = [] := by
  have hnobody : engine.audience raised.source = [] := by
    unfold Forest.listened at h
    unfold audience
    cases hcard : engine.forest.get? raised.source with
    | none => simp
    | some card =>
      have hempty : card.listeners = [] := by simpa [hcard] using h
      simp [Card.audience, hempty]
  unfold hearings
  rw [hnobody]
  simp

theorem flatMap_hearings_filter (engine : Engine) (events : List Raised) :
    (events.filter (engine.forest.listened ·.source)).flatMap engine.hearings =
      events.flatMap engine.hearings := by
  induction events with
  | nil => rfl
  | cons raised rest ih =>
    by_cases hlistened : engine.forest.listened raised.source = true
    · rw [List.filter_cons_of_pos (by simpa using hlistened), List.flatMap_cons, List.flatMap_cons,
        ih]
    · rw [List.filter_cons_of_neg (by simpa using hlistened), List.flatMap_cons, ih,
        hearings_of_not_listened hlistened]
      rfl

/-- Where nobody listens there is nothing to deliver. -/
theorem Delivers.ofListened (hagrees : engine.Agrees)
    (h : Delivers engine (events.filter (engine.forest.listened ·.source)) after) :
    Delivers engine events after := by
  have htaken : engine.takenOn (events.filter (engine.forest.listened ·.source)) =
      engine.takenOn events := by
    unfold takenOn
    rw [List.filter_filter]
    refine List.filter_congr fun raised _ => ?_
    cases hregistered : engine.isRegistered raised.source with
    | false => rfl
    | true => simp [hagrees.listened hregistered]
  obtain ⟨hqueue, hdeferred, hjournal, hrest⟩ := h
  rw [htaken] at hqueue hdeferred hjournal
  rw [flatMap_hearings_filter] at hjournal
  exact ⟨hqueue, hdeferred, hjournal, hrest⟩

/-! ## Operations that raise events -/

/-- What settling does besides delivering events: an idle engine pumps if it is set up to do so, and
if anybody listened. -/
def followUp (invoke : Invoker) (engine : Engine) (events : List Raised) : EngineM Unit :=
  if engine.config.autoPump && engine.isIdle && events.any (engine.forest.listened ·.source) then
    pumpQuietly invoke
  else pure ()

/-- Events are delivered by an operation that answers well. Inside effects it does nothing more;
from outside, a pump may follow, which starts where all of the events were delivered. -/
def HandsOut {α : Type} (engine : Engine) (operation : EngineM Unit → EngineM α)
    (events : List Raised) (answer : α) : Prop :=
  ∃ delivered, delivered.Arises ∧ Delivers engine events delivered ∧
    (operation settleInside).start engine = some (.ok answer, delivered) ∧
    ∀ invoke, (operation (settle invoke)).start engine =
      ((fun _ => answer) <$> followUp invoke engine events).start delivered

/-- An operation is refused and does nothing at all. -/
def Refuses {α : Type} (engine : Engine) (operation : EngineM Unit → EngineM α)
    (refusal : Except Error α) : Prop :=
  (operation settleInside).start engine = some (refusal, engine) ∧
    ∀ invoke, (operation (settle invoke)).start engine = some (refusal, engine)

/-- What the registry and the listeners know of a card. -/
def Card.presence (card : Card) : String × Option Nat × List Listener :=
  (card.id, card.index, card.listeners)

/-- Events that were raised in a forest are delivered when the engine settles, if the cards look the
same as before to the registry and to the listeners. -/
theorem Arises.settles (h : engine.Arises)
    (hchange : Change Operation.BringsFresh engine { engine with forest }.deliver)
    (hview : Forest.SameView Card.presence engine.forest forest)
    (hoffered : forest.outbox = engine.forest.outbox ++
      events.filter (engine.forest.listened ·.source)) :
    ∃ delivered, delivered.Arises ∧ Delivers engine events delivered ∧
      settleInside.start { engine with forest } = some (.ok (), delivered) ∧
      ∀ invoke, (settle invoke).start { engine with forest } =
        (followUp invoke engine events).start delivered := by
  have hagrees := h.listed.agrees
  have houtbox : forest.outbox = events.filter (engine.forest.listened ·.source) := by
    rw [hoffered, h.outbox, List.nil_append]
  have hlisteners : Forest.SameView Card.listeners engine.forest forest := hview.comp (·.2.2)
  have haudience : Forest.SameView Card.audience engine.forest forest :=
    hlisteners.comp (·.filterMap Listener.external?)
  have hentry : Forest.SameView Card.entry engine.forest forest :=
    hview.comp fun seen => (seen.1, seen.2.1, seen.2.2.count Listener.scheduler)
  have hentries : SameEntries engine { engine with forest := forest.emptied } := ⟨rfl, hentry⟩
  have hdelivers : Delivers { engine with forest := forest.emptied } forest.outbox
      { engine with forest }.deliver := by
    refine delivers_foldl_announce (hentries.agrees hagrees) ?_
    intro raised hmem
    rw [houtbox] at hmem
    exact (hview.contains_eq raised.source).trans
      (Forest.contains_of_listened (List.mem_filter.1 hmem).2)
  rw [houtbox] at hdelivers
  refine ⟨{ engine with forest }.deliver, h.step (.change hchange),
    (hdelivers.rebase haudience).ofListened hagrees, rfl, fun invoke => ?_⟩
  -- The outbox has something in it just if anybody listens to one of the events.
  have hany : forest.outbox.isEmpty = !events.any (engine.forest.listened ·.source) := by
    rw [houtbox, Bool.eq_iff_iff, List.isEmpty_iff, List.filter_eq_nil_iff]
    simp
  have hidle : { engine with forest }.deliver.isIdle = engine.isIdle := isIdle_deliver _
  rw [start_settle, hidle, config_deliver]
  unfold followUp
  cases hlistened : events.any (engine.forest.listened ·.source) with
  | false =>
    have hempty : { engine with forest }.forest.outbox.isEmpty = true := by
      simp [hany, hlistened]
    rw [if_pos hempty, deliver_of_isEmpty hempty]
    simp
  | true =>
    rw [hany, hlistened]
    cases engine.config.autoPump && engine.isIdle <;> simp

/-- An operation that changes the forest and then settles hands its events out. -/
theorem HandsOut.ofSettles {α : Type} {operation : EngineM Unit → EngineM α} {answer : α}
    (hstart : ∀ settle, (operation settle).start engine =
      ((fun _ => answer) <$> settle).start { engine with forest })
    (hsettles : ∃ delivered, delivered.Arises ∧ Delivers engine events delivered ∧
      settleInside.start { engine with forest } = some (.ok (), delivered) ∧
      ∀ invoke, (settle invoke).start { engine with forest } =
        (followUp invoke engine events).start delivered) :
    HandsOut engine operation events answer := by
  obtain ⟨delivered, harises, hdelivers, hinside, hfollow⟩ := hsettles
  refine ⟨delivered, harises, hdelivers, ?_, fun invoke => ?_⟩
  · rw [hstart, EngineM.start_map, hinside]
    rfl
  · rw [hstart, EngineM.start_map, hfollow, ← EngineM.start_map]

/-- With nothing in the outbox there is nothing to settle. -/
theorem Refuses.ofSettles {α : Type} {operation : EngineM Unit → EngineM α} {answer : α}
    (houtbox : engine.forest.outbox = [])
    (hstart : ∀ settle, (operation settle).start engine =
      ((fun _ => answer) <$> settle).start engine) :
    Refuses engine operation (.ok answer) := by
  have hempty : engine.forest.outbox.isEmpty = true := by
    rw [houtbox]
    rfl
  refine ⟨?_, fun invoke => ?_⟩
  · rw [hstart, EngineM.start_map, settleInside, EngineM.start_modify, deliver_of_isEmpty hempty]
    rfl
  · rw [hstart, EngineM.start_map, start_settle, if_pos hempty]
    rfl

theorem start_map_unit (action : EngineM Unit) (engine : Engine) :
    ((fun _ => ()) <$> action).start engine = action.start engine := by
  rw [EngineM.start_map]
  rcases action.start engine with _ | ⟨_ | _, after⟩ <;> rfl

section

variable (h : engine.Arises)

include h

theorem Arises.raise (raised : Raised) :
    HandsOut engine (raise · raised) [raised] () ∨
      ∃ error, Refuses engine (raise · raised) (.error error) := by
  by_cases hknown : engine.forest.contains raised.source = true
  · refine .inl (.ofSettles (fun settle => ?_)
      (h.settles (.raise hknown) (Forest.sameView_emit _ _ _)
        (Forest.outbox_emit _ raised.source raised.event)))
    rw [start_raise, if_pos hknown, start_map_unit]
  · refine .inr ⟨.unknownCard raised.source, ?_, fun invoke => ?_⟩
    · rw [start_raise, if_neg hknown]
    · rw [start_raise, if_neg hknown]

theorem Arises.attach (parent child : Handle) (intrinsic : Bool) :
    HandsOut engine (attach · parent child intrinsic) [⟨child, .added parent⟩] () ∨
      ∃ error, Refuses engine (attach · parent child intrinsic) (.error error) := by
  cases hattach : engine.forest.attach parent child intrinsic with
  | ok forest =>
    refine .inl (.ofSettles (fun settle => ?_) (h.settles (.attach hattach)
      (Forest.sameView_of_attach hattach (fun _ => rfl) fun _ => rfl)
      (Forest.outbox_attach hattach)))
    rw [start_attach, hattach, start_map_unit]
  | error error =>
    refine .inr ⟨error, ?_, fun invoke => ?_⟩
    · rw [start_attach, hattach]
    · rw [start_attach, hattach]

theorem Arises.settles_remove? {parent child : Handle} {force : Bool} {forest : Forest}
    (hremove : engine.forest.remove? parent child force = some forest) :
    ∃ delivered, delivered.Arises ∧ Delivers engine [⟨child, .removed parent⟩] delivered ∧
      settleInside.start { engine with forest } = some (.ok (), delivered) ∧
      ∀ invoke, (settle invoke).start { engine with forest } =
        (followUp invoke engine [⟨child, .removed parent⟩]).start delivered :=
  h.settles (.remove (fun _ => .inl trivial) hremove)
    (Forest.sameView_of_remove? hremove (fun _ => rfl) fun _ => rfl) (Forest.outbox_remove? hremove)

theorem Arises.removeChild (parent child : Handle) (force : Bool) :
    HandsOut engine (removeChild · parent child force) [⟨child, .removed parent⟩] true ∨
      Refuses engine (removeChild · parent child force) (.ok false) := by
  cases hremove : engine.forest.remove? parent child force with
  | some forest =>
    refine .inl (.ofSettles (fun settle => ?_) (h.settles_remove? hremove))
    rw [start_removeChild, hremove]
  | none =>
    refine .inr (.ofSettles h.outbox fun settle => ?_)
    rw [start_removeChild, hremove]

theorem Arises.detach (child : Handle) (force : Bool) :
    (∃ owner, engine.forest.owner? child = some owner ∧
      HandsOut engine (detach · child force) [⟨child, .removed owner⟩] true) ∨
      Refuses engine (detach · child force) (.ok false) := by
  cases hdetach : engine.forest.detach? child force with
  | some forest =>
    have hremove : ∃ owner, engine.forest.owner? child = some owner ∧
        engine.forest.remove? owner child force = some forest := by
      unfold Forest.detach? at hdetach
      split at hdetach
      next owner howner => exact ⟨owner, howner, hdetach⟩
      next => cases hdetach
    obtain ⟨owner, howner, hremove⟩ := hremove
    refine .inl ⟨owner, howner, .ofSettles (fun settle => ?_) (h.settles_remove? hremove)⟩
    rw [start_detach, hdetach]
  | none =>
    refine .inr (.ofSettles h.outbox fun settle => ?_)
    rw [start_detach, hdetach]

theorem Arises.tickAll :
    HandsOut engine tickAll (engine.registry.handles.map (⟨·, .tick⟩)) () := by
  refine .ofSettles (fun settle => ?_) (h.settles (.tickAll trivial)
    (Forest.sameView_foldl_emit _ _ _)
    (Forest.outbox_foldl_emit engine.registry.handles .tick engine.forest))
  rw [start_tickAll, start_map_unit]

end

end Engine

end CardRules
