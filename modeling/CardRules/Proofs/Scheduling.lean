import CardRules.Proofs.Delivery
import CardRules.Proofs.Following
import CardRules.Proofs.Numbers

/-!
What changes mean for the scheduler. A change leaves the queues and the journal alone, or hands out
the outbox, or notes something; and whatever happens on a course, the count of the events that are
being processed is the same at its end as at its start, and a pump is under way at its end if one
was at its start.
-/

namespace CardRules.Engine

/-- Two engines have the same events waiting, the same journal and the same chances to come, and
are equally deep in events. -/
structure SameSchedule (engine after : Engine) : Prop where
  queue : after.queue = engine.queue
  deferred : after.deferred = engine.deferred
  journal : after.journal = engine.journal
  generator : after.generator = engine.generator
  depth : after.depth = engine.depth

variable {allowed : Operation → Prop} {stage : Stage} {engine after : Engine}

theorem SameSchedule.refl (engine : Engine) : SameSchedule engine engine :=
  ⟨rfl, rfl, rfl, rfl, rfl⟩

theorem sameSchedule_register (engine : Engine) (handle : Handle) :
    SameSchedule engine (engine.register handle) := by
  rcases register_cases engine handle with hsame | ⟨card, hnew, hcard⟩
  · rw [hsame]
    exact .refl engine
  · rw [register_of_get? hnew hcard]
    exact ⟨rfl, rfl, rfl, rfl, rfl⟩

theorem sameSchedule_addCard (engine : Engine) (card : Card) :
    SameSchedule engine (engine.addCard card) := by
  obtain ⟨hqueue, hdeferred, hjournal, hgenerator, hdepth⟩ :=
    sameSchedule_register { engine with forest := engine.forest.insert card } engine.forest.next
  exact ⟨hqueue, hdeferred, hjournal, hgenerator, hdepth⟩

theorem sameSchedule_unregister (engine : Engine) (handle : Handle) :
    SameSchedule engine (engine.unregister handle) := by
  rcases unregister_cases engine handle with hsame | hregistered
  · rw [hsame]
    exact .refl engine
  · rw [unregister_of_isRegistered hregistered]
    exact ⟨rfl, rfl, rfl, rfl, rfl⟩

theorem sameSchedule_unsubscribe (engine : Engine) (handle : Handle) (listener : ListenerId) :
    SameSchedule engine (engine.unsubscribe handle listener) := by
  unfold unsubscribe
  split
  · exact ⟨rfl, rfl, rfl, rfl, rfl⟩
  · exact .refl engine

/-- What a change can mean for the scheduler. -/
theorem Change.schedule (h : Change allowed engine after) :
    SameSchedule engine after ∨
      (∃ forest, after = { engine with forest }.deliver) ∨
      ∃ data, after = engine.record (.noted data) := by
  cases h with
  | addCard => exact .inl (sameSchedule_addCard engine _)
  | makeCard => exact .inl (sameSchedule_addCard engine _)
  | setFactory => exact .inl ⟨rfl, rfl, rfl, rfl, rfl⟩
  | register => exact .inl (sameSchedule_register engine _)
  | unregister => exact .inl (sameSchedule_unregister engine _)
  | registerRule _ accepted =>
    obtain ⟨-, -, rfl⟩ := registerRule_eq_ok accepted
    exact .inl ⟨rfl, rfl, rfl, rfl, rfl⟩
  | subscribe => exact .inl ⟨rfl, rfl, rfl, rfl, rfl⟩
  | unsubscribe => exact .inl (sameSchedule_unsubscribe engine _ _)
  | attach => exact .inr (.inl ⟨_, rfl⟩)
  | remove => exact .inr (.inl ⟨_, rfl⟩)
  | raise => exact .inr (.inl ⟨_, rfl⟩)
  | tickAll => exact .inr (.inl ⟨_, rfl⟩)
  | deliver => exact .inr (.inl ⟨_, rfl⟩)
  | edit => exact .inl ⟨rfl, rfl, rfl, rfl, rfl⟩
  | keepError => exact .inl ⟨rfl, rfl, rfl, rfl, rfl⟩
  | note data => exact .inr (.inr ⟨data, rfl⟩)

theorem Change.depth_eq (h : Change allowed engine after) : after.depth = engine.depth := by
  rcases h.schedule with hsame | ⟨forest, rfl⟩ | ⟨data, rfl⟩
  · exact hsame.depth
  · rw [depth_deliver]
  · rfl

/-- Only the rules for an event draw chances. -/
theorem Change.generator_eq (h : Change allowed engine after) :
    after.generator = engine.generator := by
  rcases h.schedule with hsame | ⟨forest, rfl⟩ | ⟨data, rfl⟩
  · exact hsame.generator
  · rw [generator_deliver]
  · rfl

theorem takeNext?_eq_some {raised : Raised} (h : engine.takeNext? = some (raised, after)) :
    ∃ rest, engine.queue = raised :: rest ∧
      after = { engine with queue := rest }.record (.taken raised) := by
  unfold takeNext? at h
  split at h
  · simp at h
  next rest hqueue =>
    cases h
    exact ⟨rest, hqueue, rfl⟩

/-- When the outermost event is left, what was deferred goes to the end of the queue. -/
theorem leave_of_depth (h : engine.depth ≤ 1) :
    engine.leave =
      { engine with depth := 0, queue := engine.queue ++ engine.deferred, deferred := [] } := by
  unfold leave
  rw [if_pos h]

/-- Every event that is entered is left again. -/
theorem depth_leave (h : after.depth = engine.depth + 1) : after.leave.depth = engine.depth := by
  -- The last event to be left sets the count to zero, which is one less all the same.
  unfold leave
  split <;> simp only <;> omega

/-- A course ends as deep in events as it starts. -/
theorem Course.depth_eq (h : Course allowed stage engine after) : after.depth = engine.depth := by
  induction h with
  | refl => rfl
  | trans _ _ ih₁ ih₂ => exact ih₂.trans ih₁
  | change hchange => exact hchange.depth_eq
  | draw => rfl
  | fire => rfl
  | effects _ ih => exact ih
  | process _ ih => exact depth_leave ih
  | take htaken =>
    obtain ⟨_, -, rfl⟩ := takeNext?_eq_some htaken
    rfl
  | serve _ ih => exact ih
  | pump _ _ ih => exact ih

/-! ## What stands -/

/-- What a change leaves alone of an engine: its settings, whether it pumps, and an outbox with
nothing in it. -/
structure SameStanding (engine after : Engine) : Prop where
  config : after.config = engine.config
  pumping : after.pumping = engine.pumping
  outbox : engine.forest.outbox = [] → after.forest.outbox = []

theorem sameStanding_register (engine : Engine) (handle : Handle) :
    SameStanding engine (engine.register handle) := by
  rcases register_cases engine handle with hsame | ⟨card, hnew, hcard⟩
  · rw [hsame]
    exact ⟨rfl, rfl, id⟩
  · rw [register_of_get? hnew hcard]
    exact ⟨rfl, rfl, id⟩

theorem sameStanding_addCard (engine : Engine) (card : Card) :
    SameStanding engine (engine.addCard card) := by
  have hregister := sameStanding_register
    { engine with forest := engine.forest.insert card } engine.forest.next
  exact ⟨hregister.config, hregister.pumping, hregister.outbox⟩

theorem sameStanding_unregister (engine : Engine) (handle : Handle) :
    SameStanding engine (engine.unregister handle) := by
  rcases unregister_cases engine handle with hsame | hregistered
  · rw [hsame]
    exact ⟨rfl, rfl, id⟩
  · rw [unregister_of_isRegistered hregistered]
    exact ⟨rfl, rfl, id⟩

theorem sameStanding_unsubscribe (engine : Engine) (handle : Handle) (listener : ListenerId) :
    SameStanding engine (engine.unsubscribe handle listener) := by
  unfold unsubscribe
  split
  · exact ⟨rfl, rfl, id⟩
  · exact ⟨rfl, rfl, id⟩

/-- Handing events out leaves nothing in the outbox, whatever was in it. -/
theorem sameStanding_deliver (engine : Engine) (forest : Forest) :
    SameStanding engine { engine with forest }.deliver := by
  refine ⟨?_, ?_, fun _ => ?_⟩
  · rw [config_deliver]
  · rw [pumping_deliver]
  · rw [forest_deliver]
    rfl

theorem Change.standing (h : Change allowed engine after) : SameStanding engine after := by
  cases h with
  | addCard => exact sameStanding_addCard engine _
  | makeCard => exact sameStanding_addCard engine _
  | setFactory => exact ⟨rfl, rfl, id⟩
  | register => exact sameStanding_register engine _
  | unregister => exact sameStanding_unregister engine _
  | registerRule _ accepted =>
    obtain ⟨-, -, rfl⟩ := registerRule_eq_ok accepted
    exact ⟨rfl, rfl, id⟩
  | subscribe => exact ⟨rfl, rfl, id⟩
  | unsubscribe => exact sameStanding_unsubscribe engine _ _
  | attach => exact sameStanding_deliver engine _
  | remove => exact sameStanding_deliver engine _
  | raise => exact sameStanding_deliver engine _
  | tickAll => exact sameStanding_deliver engine _
  | deliver => exact sameStanding_deliver engine _
  | edit => exact ⟨rfl, rfl, id⟩
  | keepError => exact ⟨rfl, rfl, id⟩
  | note => exact ⟨rfl, rfl, id⟩

/-- A pump is under way at the end of a course if it was at its start. -/
theorem Course.pumping_eq (h : Course allowed stage engine after) :
    after.pumping = engine.pumping := by
  induction h with
  | refl => rfl
  | trans _ _ ih₁ ih₂ => exact ih₂.trans ih₁
  | change hchange => exact hchange.standing.pumping
  | draw => rfl
  | fire => rfl
  | effects _ ih => exact ih
  | @process engine after _ ih =>
    have hleave : after.leave.pumping = after.pumping := by
      unfold leave
      split <;> rfl
    exact hleave.trans ih
  | take htaken =>
    obtain ⟨_, -, rfl⟩ := takeNext?_eq_some htaken
    rfl
  | serve _ ih => exact ih
  | @pump engine after hidle =>
    -- A pump starts where none is under way, and says so again at its end.
    have hidle := hidle
    simp only [isIdle, Bool.and_eq_true, Bool.not_eq_true'] at hidle
    exact hidle.1.symm

/-- What each change keeps of the forest and the settings, and is about nothing else, stays. -/
theorem stays_of_standing {condition : Engine → Prop}
    (hsame : ∀ {engine after}, after.forest = engine.forest → after.config = engine.config →
      condition engine → condition after)
    (hchange : ∀ {engine after}, SameStanding engine after → condition engine → condition after) :
    Stays allowed condition := by
  intro engine after hstep
  cases hstep with
  | change change => exact hchange change.standing
  | draw => exact hsame rfl rfl
  | fire => exact hsame rfl rfl
  | enter => exact hsame rfl rfl
  | leave =>
    unfold leave
    split
    · exact hsame rfl rfl
    · exact hsame rfl rfl
  | take taken =>
    obtain ⟨_, -, rfl⟩ := takeNext?_eq_some taken
    exact hsame rfl rfl
  | startPump => exact hsame rfl rfl
  | stopPump => exact hsame rfl rfl

/-- The settings of an engine never change. -/
theorem Course.config_eq (h : Course allowed stage engine after) :
    after.config = engine.config := by
  have hstays : Stays allowed (·.config = engine.config) :=
    stays_of_standing (fun _ hconfig h => hconfig.trans h) fun hsame h => hsame.config.trans h
  exact h.keeps hstays rfl

/-- An outbox with nothing in it stays so: whatever raises an event hands it out as well. -/
theorem outbox_stays : Stays allowed (·.forest.outbox = []) :=
  stays_of_standing (fun hforest _ h => hforest ▸ h) fun hsame h => hsame.outbox h

/-! ## Pumps -/

/-- While an event is processed, settling does no more than to hand out what was raised. -/
theorem start_settle_of_depth_pos (invoke : Invoker) (hdepth : 0 < engine.depth) :
    (settle invoke).start engine = some (.ok (), engine.deliver) := by
  have hbusy : engine.isIdle = false := by
    unfold isIdle
    simp [Nat.ne_of_gt hdepth]
  rw [start_settle, isIdle_deliver, hbusy, Bool.and_false]
  by_cases hempty : engine.forest.outbox.isEmpty = true
  · rw [if_pos hempty, deliver_of_isEmpty hempty]
  · rw [if_neg hempty]
    rfl

variable {invoke : Invoker}

/-- Unless an event fails, events are taken until there were as many as may be, or none is left. -/
theorem drain_eq_ok {left count total : Nat}
    (h : (drain invoke left count).start engine = some (.ok total, after)) :
    total = count + left ∨ after.queue = [] := by
  induction left generalizing count engine with
  | zero =>
    cases h
    exact .inl rfl
  | succ left ih =>
    cases hnext : engine.takeNext? with
    | none =>
      rw [start_drain_of_none engine invoke hnext] at h
      cases h
      unfold takeNext? at hnext
      split at hnext
      next hqueue => exact .inr hqueue
      next => simp at hnext
    | some next =>
      obtain ⟨raised, taken⟩ := next
      rw [start_drain_of_some engine invoke hnext, EngineM.start_bind] at h
      rcases hprocess : (process invoke raised).start taken with _ | ⟨error | ⟨⟩, served⟩
      · simp [hprocess] at h
      · simp [hprocess] at h
      · simp only [hprocess] at h
        rcases ih h with htotal | hqueue
        · exact .inl (by omega)
        · exact .inr hqueue

/-- A pump that does not fail has come to its limit, or to the end of the queue. -/
theorem pump_eq_ok {limit count : Nat} (hidle : engine.isIdle = true)
    (h : (pump invoke limit).start engine = some (.ok count, after)) :
    count = limit ∨ after.queue = [] := by
  rw [start_pump_of_isIdle engine invoke limit hidle, EngineM.start_thenAlways] at h
  obtain ⟨⟨outcome, drained⟩, hdrain, heq⟩ := Option.map_eq_some_iff.1 h
  cases heq
  rcases drain_eq_ok hdrain with hcount | hqueue
  · exact .inl (hcount.trans (Nat.zero_add limit))
  · exact .inr hqueue

end CardRules.Engine
