import CardRules.Proofs.Registration
import CardRules.Proofs.Scheduling

/-!
Engines as they arise, also in the middle of an operation, and the listeners in them. As long as no
number of a listener was given out twice, an external listener sits on one card for as long as it is
in the table, and on every card those that came first are first.
-/

namespace CardRules

/-- The number of a listener from outside. -/
def Listener.external? : Listener → Option ListenerId
  | .scheduler => none
  | .external id => some id

/-- The external listeners of a card, in order. -/
def Card.audience (card : Card) : List ListenerId := card.listeners.filterMap Listener.external?

theorem Card.mem_audience_iff {card : Card} {id : ListenerId} :
    id ∈ card.audience ↔ Listener.external id ∈ card.listeners := by
  unfold audience
  rw [List.mem_filterMap]
  constructor
  · rintro ⟨_ | other, hmem, heq⟩
    · cases heq
    · cases heq
      exact hmem
  · exact fun hmem => ⟨_, hmem, rfl⟩

theorem Card.audience_eq_nil_of_isFresh {card : Card} (h : card.IsFresh) : card.audience = [] := by
  unfold audience
  rw [h.listeners]
  rfl

/-- Without a listener, and the scheduler is none from outside, the others are as before. -/
theorem Card.audience_unsubscribe_scheduler (card : Card) :
    (card.unsubscribe .scheduler).audience = card.audience := by
  unfold audience unsubscribe
  rw [List.filterMap_filter]
  congr 1
  funext listener
  cases listener <;> simp [Listener.external?]

theorem Card.audience_unsubscribe_external (card : Card) (id : ListenerId) :
    (card.unsubscribe (.external id)).audience = card.audience.filter (· ≠ id) := by
  unfold audience unsubscribe
  rw [List.filterMap_filter, List.filter_filterMap]
  congr 1
  funext listener
  cases listener <;> simp [Listener.external?, Option.filter]

namespace Engine

/-- What becomes of an engine without cards step by step, whatever the operations are, if the cards
that they bring in are fresh. These are also the engines in which an effect finds itself, or an
operation before all its parts are made. -/
inductive Arises : Engine → Prop
  | new {config : Config} {factory : Option Factory}
    (fresh : ∀ made, factory = some made → made.MakesFresh) : Arises (new config factory)
  | step {engine after : Engine} (before : Arises engine)
    (step : Step Operation.BringsFresh engine after) : Arises after

variable {engine after : Engine} {handle : Handle} {stage : Stage}

theorem Arises.keeps {condition : Engine → Prop} (h : engine.Arises)
    (hstays : Stays Operation.BringsFresh condition)
    (hnew : ∀ config factory, (∀ made, factory = some made → made.MakesFresh) →
      condition (Engine.new config factory)) : condition engine := by
  induction h with
  | new hfresh => exact hnew _ _ hfresh
  | step _ hstep ih => exact hstays hstep ih

theorem arises_stays : Stays Operation.BringsFresh Arises := fun hstep h => .step h hstep

theorem Arises.listed (h : engine.Arises) : engine.SoundlyListed :=
  h.keeps soundlyListed_stays fun config _ hfresh => soundlyListed_new config hfresh

theorem Arises.outbox (h : engine.Arises) : engine.forest.outbox = [] :=
  h.keeps outbox_stays fun _ _ _ => rfl

/-! ## The table and the cards -/

/-- The external listeners of a card, in order. -/
def audience (engine : Engine) (handle : Handle) : List ListenerId :=
  ((engine.forest.get? handle).map Card.audience).getD []

theorem isSubscribed_iff {id : ListenerId} :
    engine.isSubscribed handle id = true ↔ id ∈ engine.audience handle := by
  unfold isSubscribed audience
  cases engine.forest.get? handle with
  | none => simp
  | some card => simp [Card.mem_audience_iff]

/-- The table of listeners and the cards say the same. -/
structure Attended (engine : Engine) : Prop where
  /-- The numbers in the table were given out. -/
  upcoming : ∀ entry ∈ engine.listeners, entry.1.number < engine.subscriptions
  /-- The table is in the order of subscription, and lists no number twice. -/
  ascending : engine.listeners.Pairwise (·.1.number < ·.1.number)
  /-- So is each card. -/
  ordered : ∀ handle, (engine.audience handle).Pairwise (·.number < ·.number)
  /-- Whoever listens to a card is in the table. -/
  known : ∀ handle, ∀ id ∈ engine.audience handle, ∃ note, (id, note) ∈ engine.listeners
  /-- Nobody listens to two cards. -/
  unshared : ∀ first second, ∀ id ∈ engine.audience first, id ∈ engine.audience second →
    first = second

theorem attended_new (config : Config) (factory : Option Factory) :
    (Engine.new config factory).Attended := by
  have haudience : ∀ handle, (Engine.new config factory).audience handle = [] := fun _ => rfl
  refine ⟨fun entry hmem => absurd hmem List.not_mem_nil, .nil, fun handle => ?_,
    fun handle id hmem => ?_, fun first _ id hmem => ?_⟩
  · rw [haudience]
    exact .nil
  · simp [haudience] at hmem
  · simp [haudience] at hmem

/-- Two engines have the same listeners, in the table and on the cards. -/
structure SameAudience (engine after : Engine) : Prop where
  listeners : after.listeners = engine.listeners
  subscriptions : after.subscriptions = engine.subscriptions
  audience : ∀ handle, after.audience handle = engine.audience handle

theorem SameAudience.refl (engine : Engine) : SameAudience engine engine :=
  ⟨rfl, rfl, fun _ => rfl⟩

theorem SameAudience.attended (hsame : SameAudience engine after) (h : engine.Attended) :
    after.Attended := by
  obtain ⟨hlisteners, hcount, haudience⟩ := hsame
  refine ⟨?_, ?_, fun handle => ?_, fun handle id => ?_, fun first second id => ?_⟩
  · rw [hlisteners, hcount]
    exact h.upcoming
  · rw [hlisteners]
    exact h.ascending
  · rw [haudience]
    exact h.ordered handle
  · rw [haudience, hlisteners]
    exact h.known handle id
  · rw [haudience, haudience]
    exact h.unshared first second id

/-- Cards that look alike to the external listeners have the same audience. -/
theorem audience_eq (h : Forest.SameView Card.audience engine.forest after.forest)
    (handle : Handle) : after.audience handle = engine.audience handle :=
  congrArg (Option.getD · []) (h handle)

/-! ## Subscriptions -/

/-- The number of a new listener is the number of subscriptions before, as long as there are numbers
of 32 bits. -/
theorem number_nextListener (h : engine.subscriptions < UInt32.size) :
    engine.nextListener.number = engine.subscriptions := by
  unfold nextListener ListenerId.number
  rw [BitVec.toNat_ofNat, Nat.mod_eq_of_lt h]

theorem audience_subscribe (h : engine.forest.contains handle = true) (note : Data)
    (other : Handle) :
    (engine.subscribe handle note).audience other =
      if other = handle then engine.audience handle ++ [engine.nextListener]
      else engine.audience other := by
  obtain ⟨card, hcard⟩ := Forest.contains_iff.1 h
  unfold audience subscribe
  simp only [Forest.get?_modify]
  by_cases hother : other = handle
  · subst hother
    simp [hcard, Card.audience, Card.subscribe, Listener.external?]
  · simp [hother]

theorem audience_unsubscribe {id : ListenerId} (h : engine.isSubscribed handle id = true)
    (other : Handle) :
    (engine.unsubscribe handle id).audience other =
      if other = handle then (engine.audience handle).filter (· ≠ id)
      else engine.audience other := by
  unfold unsubscribe
  rw [if_pos h]
  unfold audience
  simp only [Forest.get?_modify]
  by_cases hother : other = handle
  · subst hother
    cases engine.forest.get? other with
    | none => simp
    | some card => simp [Card.audience_unsubscribe_external]
  · simp [hother]

/-- A listener whose number nobody in the table has comes at its end. -/
theorem Attended.listeners_subscribe (h : engine.Attended) (hbound : engine.subscriptions < UInt32.size)
    (handle : Handle) (note : Data) :
    (engine.subscribe handle note).listeners =
      engine.listeners ++ [(engine.nextListener, note)] := by
  have hnew : engine.listeners.filter (·.1 ≠ engine.nextListener) = engine.listeners := by
    rw [List.filter_eq_self]
    intro entry hmem
    have hless := h.upcoming entry hmem
    rw [← number_nextListener hbound] at hless
    apply decide_eq_true
    intro heq
    rw [heq] at hless
    omega
  unfold Engine.subscribe
  rw [hnew]

theorem Attended.number_lt (h : engine.Attended) {id : ListenerId}
    (hmem : id ∈ engine.audience handle) : id.number < engine.subscriptions := by
  obtain ⟨note, hentry⟩ := h.known handle id hmem
  exact h.upcoming _ hentry

/-- The audience of a card after a subscription: only the new listener is new. -/
theorem mem_audience_subscribe (hknown : engine.forest.contains handle = true) {note : Data}
    {other : Handle} {id : ListenerId}
    (hmem : id ∈ (engine.subscribe handle note).audience other) :
    id ∈ engine.audience other ∨ (other = handle ∧ id = engine.nextListener) := by
  rw [audience_subscribe hknown] at hmem
  split at hmem
  next heq => simpa [heq] using hmem
  next => exact .inl hmem

theorem Attended.subscribe (h : engine.Attended) (hknown : engine.forest.contains handle = true)
    (hbound : engine.subscriptions < UInt32.size) (note : Data) :
    (engine.subscribe handle note).Attended := by
  have hnumber := number_nextListener hbound
  have hlisteners := h.listeners_subscribe hbound handle note
  have hcount : (engine.subscribe handle note).subscriptions = engine.subscriptions + 1 := rfl
  refine ⟨fun entry hmem => ?_, ?_, fun other => ?_, fun other id hmem => ?_,
    fun first second id hfirst hsecond => ?_⟩
  · rw [hlisteners] at hmem
    rw [hcount]
    rcases List.mem_append.1 hmem with hold | hnew
    · have hless := h.upcoming entry hold
      omega
    · obtain rfl := List.mem_singleton.1 hnew
      show engine.nextListener.number < _
      omega
  · rw [hlisteners]
    refine List.pairwise_append.2 ⟨h.ascending, List.pairwise_singleton _ _, ?_⟩
    intro entry hmem new hnew
    obtain rfl := List.mem_singleton.1 hnew
    rw [hnumber]
    exact h.upcoming entry hmem
  · rw [audience_subscribe hknown]
    split
    · refine List.pairwise_append.2 ⟨h.ordered handle, List.pairwise_singleton _ _, ?_⟩
      intro id hmem new hnew
      obtain rfl := List.mem_singleton.1 hnew
      rw [hnumber]
      exact h.number_lt hmem
    · exact h.ordered other
  · rw [hlisteners]
    rcases mem_audience_subscribe hknown hmem with hold | ⟨-, rfl⟩
    · obtain ⟨note, hentry⟩ := h.known other id hold
      exact ⟨note, List.mem_append_left _ hentry⟩
    · exact ⟨note, List.mem_append_right _ List.mem_cons_self⟩
  · -- The new listener listens to one card only, the others to what they listened to before.
    have hold : ∀ other, ¬ engine.nextListener ∈ engine.audience other := by
      intro other hmem
      have hless := h.number_lt hmem
      omega
    rcases mem_audience_subscribe hknown hfirst with hfirst' | ⟨rfl, rfl⟩ <;>
      rcases mem_audience_subscribe hknown hsecond with hsecond' | ⟨rfl, hid⟩
    · exact h.unshared first second id hfirst' hsecond'
    · exact absurd (hid ▸ hfirst') (hold first)
    · exact absurd hsecond' (hold second)
    · rfl

theorem subscriptions_unsubscribe (engine : Engine) (handle : Handle) (listener : ListenerId) :
    (engine.unsubscribe handle listener).subscriptions = engine.subscriptions := by
  unfold unsubscribe
  split <;> rfl

theorem Attended.unsubscribe (h : engine.Attended) (handle : Handle) (listener : ListenerId) :
    (engine.unsubscribe handle listener).Attended := by
  by_cases hsubscribed : engine.isSubscribed handle listener = true
  · have haudience := audience_unsubscribe hsubscribed
    have hlisteners : (engine.unsubscribe handle listener).listeners =
        engine.listeners.filter (·.1 ≠ listener) := by
      unfold Engine.unsubscribe
      rw [if_pos hsubscribed]
    have hcount := subscriptions_unsubscribe engine handle listener
    -- The listener was on this card only, so whoever listens still is somebody else.
    have hmem : ∀ other, ∀ id ∈ (engine.unsubscribe handle listener).audience other,
        id ∈ engine.audience other ∧ id ≠ listener := by
      intro other id hid
      rw [haudience] at hid
      split at hid
      next heq => simpa [heq] using hid
      next hne =>
        refine ⟨hid, ?_⟩
        rintro rfl
        exact hne (h.unshared other handle id hid (isSubscribed_iff.1 hsubscribed))
    refine ⟨fun entry hentry => ?_, ?_, fun other => ?_, fun other id hid => ?_,
      fun first second id hfirst hsecond => ?_⟩
    · rw [hlisteners] at hentry
      rw [hcount]
      exact h.upcoming entry (List.mem_of_mem_filter hentry)
    · rw [hlisteners]
      exact h.ascending.filter _
    · rw [haudience]
      split
      · exact (h.ordered handle).filter _
      · exact h.ordered other
    · obtain ⟨hold, hne⟩ := hmem other id hid
      obtain ⟨note, hentry⟩ := h.known other id hold
      refine ⟨note, ?_⟩
      rw [hlisteners]
      exact List.mem_filter.2 ⟨hentry, by simpa using hne⟩
    · exact h.unshared first second id (hmem first id hfirst).1 (hmem second id hsecond).1
  · unfold Engine.unsubscribe
    rw [if_neg hsubscribed]
    exact h

/-! ## Changes -/

theorem sameAudience_register (engine : Engine) (handle : Handle) :
    SameAudience engine (engine.register handle) := by
  rcases register_cases engine handle with hsame | ⟨card, hnew, hcard⟩
  · rw [hsame]
    exact .refl engine
  · rw [register_of_get? hnew hcard]
    refine ⟨rfl, rfl, audience_eq (Forest.sameView_modify (fun card => ?_) _ _)⟩
    simp [Card.audience, Card.subscribe, Listener.external?]

theorem sameAudience_unregister (engine : Engine) (handle : Handle) :
    SameAudience engine (engine.unregister handle) := by
  rcases unregister_cases engine handle with hsame | hregistered
  · rw [hsame]
    exact .refl engine
  · rw [unregister_of_isRegistered hregistered]
    exact ⟨rfl, rfl, audience_eq (Forest.sameView_modify Card.audience_unsubscribe_scheduler _ _)⟩

/-- Nobody listens to a card that comes in fresh. -/
theorem sameAudience_addCard (engine : Engine) {card : Card} (hfresh : card.IsFresh) :
    SameAudience engine (engine.addCard card) := by
  obtain ⟨hlisteners, hcount, haudience⟩ :=
    sameAudience_register { engine with forest := engine.forest.insert card } engine.forest.next
  refine ⟨hlisteners, hcount, fun handle => (haudience handle).trans ?_⟩
  unfold audience
  simp only [Forest.get?_insert]
  split
  next heq => simp [heq, Forest.get?_next, Card.audience_eq_nil_of_isFresh hfresh]
  next => rfl

theorem sameAudience_deliver {forest : Forest}
    (h : Forest.SameView Card.audience engine.forest forest) :
    SameAudience engine { engine with forest }.deliver := by
  have hkept : { engine with forest }.deliver.listeners = engine.listeners ∧
      { engine with forest }.deliver.subscriptions = engine.subscriptions := by
    obtain ⟨_, _, _, heq⟩ := deliver_eq { engine with forest }
    rw [heq]
    exact ⟨rfl, rfl⟩
  refine ⟨hkept.1, hkept.2, audience_eq ?_⟩
  rw [forest_deliver]
  exact h.trans (Forest.sameView_emptied forest)

/-- What a change can mean for the listeners. -/
theorem Change.audience (h : Change Operation.BringsFresh engine after)
    (hlinked : engine.SoundlyLinked) :
    SameAudience engine after ∨
      (∃ handle note, engine.forest.contains handle = true ∧
        after = engine.subscribe handle note) ∨
      ∃ handle listener, after = engine.unsubscribe handle listener := by
  cases h with
  | addCard asked => exact .inl (sameAudience_addCard engine asked)
  | makeCard known made =>
    exact .inl (sameAudience_addCard engine (hlinked.fresh _ known _ _ made))
  | setFactory => exact .inl ⟨rfl, rfl, fun _ => rfl⟩
  | register => exact .inl (sameAudience_register engine _)
  | unregister => exact .inl (sameAudience_unregister engine _)
  | registerRule _ accepted =>
    obtain ⟨-, -, rfl⟩ := registerRule_eq_ok accepted
    exact .inl ⟨rfl, rfl, fun _ => rfl⟩
  | subscribe _ known => exact .inr (.inl ⟨_, _, known, rfl⟩)
  | unsubscribe => exact .inr (.inr ⟨_, _, rfl⟩)
  | attach attached =>
    exact .inl (sameAudience_deliver
      (Forest.sameView_of_attach attached (fun _ => rfl) fun _ => rfl))
  | remove _ removed =>
    exact .inl (sameAudience_deliver
      (Forest.sameView_of_remove? removed (fun _ => rfl) fun _ => rfl))
  | raise => exact .inl (sameAudience_deliver (Forest.sameView_emit _ _ _))
  | tickAll => exact .inl (sameAudience_deliver (Forest.sameView_foldl_emit _ _ _))
  | deliver => exact .inl (sameAudience_deliver (.refl _))
  | edit edits =>
    refine .inl ⟨rfl, rfl, audience_eq (Forest.sameView_modify (fun card => ?_) _ _)⟩
    obtain ⟨_, _, heq⟩ := edits card
    rw [heq]
    rfl
  | keepError => exact .inl ⟨rfl, rfl, fun _ => rfl⟩
  | note => exact .inl ⟨rfl, rfl, fun _ => rfl⟩

/-- What a step can mean for the listeners. -/
theorem Step.audience (hstep : Step Operation.BringsFresh engine after)
    (hlinked : engine.SoundlyLinked) :
    SameAudience engine after ∨
      (∃ handle note, engine.forest.contains handle = true ∧
        after = engine.subscribe handle note) ∨
      ∃ handle listener, after = engine.unsubscribe handle listener := by
  cases hstep with
  | change hchange => exact hchange.audience hlinked
  | draw => exact .inl ⟨rfl, rfl, fun _ => rfl⟩
  | fire => exact .inl ⟨rfl, rfl, fun _ => rfl⟩
  | enter => exact .inl ⟨rfl, rfl, fun _ => rfl⟩
  | leave =>
    refine .inl ?_
    unfold Engine.leave
    split <;> exact ⟨rfl, rfl, fun _ => rfl⟩
  | take htaken =>
    obtain ⟨_, -, rfl⟩ := takeNext?_eq_some htaken
    exact .inl ⟨rfl, rfl, fun _ => rfl⟩
  | startPump => exact .inl ⟨rfl, rfl, fun _ => rfl⟩
  | stopPump => exact .inl ⟨rfl, rfl, fun _ => rfl⟩

theorem Step.subscriptions_le (hstep : Step Operation.BringsFresh engine after)
    (hlinked : engine.SoundlyLinked) : engine.subscriptions ≤ after.subscriptions := by
  rcases hstep.audience hlinked with hsame | ⟨handle, note, -, rfl⟩ | ⟨handle, id, rfl⟩
  · exact Nat.le_of_eq hsame.subscriptions.symm
  · exact Nat.le_succ _
  · exact Nat.le_of_eq (subscriptions_unsubscribe engine handle id).symm

theorem Step.attended (hstep : Step Operation.BringsFresh engine after)
    (hlinked : engine.SoundlyLinked) (hbound : after.subscriptions ≤ UInt32.size)
    (h : engine.Attended) : after.Attended := by
  rcases hstep.audience hlinked with hsame | ⟨handle, note, hknown, rfl⟩ | ⟨handle, id, rfl⟩
  · exact hsame.attended h
  · exact h.subscribe hknown hbound note
  · exact h.unsubscribe handle id

/-- As long as no number was given out twice, the table and the cards agree. -/
theorem Arises.attended (h : engine.Arises) (hbound : engine.subscriptions ≤ UInt32.size) :
    engine.Attended := by
  induction h with
  | new => exact attended_new _ _
  | step before hstep ih =>
    have hlinked := before.listed.linked
    have hle := hstep.subscriptions_le hlinked
    exact hstep.attended hlinked hbound (ih (by omega))

end Engine

end CardRules
