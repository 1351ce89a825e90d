import CardRules.Proofs.Ownership
import CardRules.Proofs.Scheduling

/-!
The order of events. What the scheduler took on is, in this order, what pumps took from the queue,
what waits in the queue and what waits until the outermost event is done. Nothing is taken while an
event is processed, so what an event sets off is handled after all that was waiting before it.
-/

namespace CardRules

/-- The event that a line of the journal says was queued. -/
def Entry.queued? : Entry → Option Raised
  | .queued raised _ => some raised
  | _ => none

/-- The event that a line of the journal says was taken. -/
def Entry.taken? : Entry → Option Raised
  | .taken raised => some raised
  | _ => none

namespace Engine

/-- The events that the scheduler ever took on, in order. -/
def queuedEvents (engine : Engine) : List Raised := engine.journal.toList.filterMap Entry.queued?

/-- The events that pumps ever took from the queue, in order. -/
def takenEvents (engine : Engine) : List Raised := engine.journal.toList.filterMap Entry.taken?

/-- Every event that the scheduler took on was taken or still waits, in the order of coming. -/
def AccountsForEvents (engine : Engine) : Prop :=
  engine.queuedEvents = engine.takenEvents ++ engine.queue ++ engine.deferred

/-- Nothing is deferred unless an event is being processed. -/
structure Balanced (engine : Engine) : Prop where
  accounts : engine.AccountsForEvents
  flushed : engine.depth = 0 → engine.deferred = []

/-- Between two engines no event was taken, and those that came were deferred. -/
structure Defers (engine after : Engine) : Prop where
  taken : after.takenEvents = engine.takenEvents
  queue : after.queue = engine.queue
  chained : ∃ chained, after.queuedEvents = engine.queuedEvents ++ chained ∧
    after.deferred = engine.deferred ++ chained

variable {allowed : Operation → Prop} {stage : Stage} {engine after last : Engine}

/-! ## The journal -/

theorem queuedEvents_record (engine : Engine) (entry : Entry) :
    (engine.record entry).queuedEvents = engine.queuedEvents ++ entry.queued?.toList := by
  unfold queuedEvents record
  cases h : entry.queued? <;> simp [h]

theorem takenEvents_record (engine : Engine) (entry : Entry) :
    (engine.record entry).takenEvents = engine.takenEvents ++ entry.taken?.toList := by
  unfold takenEvents record
  cases h : entry.taken? <;> simp [h]

theorem accountsForEvents_record {entry : Entry} :
    (engine.record entry).AccountsForEvents ↔
      engine.queuedEvents ++ entry.queued?.toList =
        engine.takenEvents ++ entry.taken?.toList ++ engine.queue ++ engine.deferred := by
  unfold AccountsForEvents
  rw [queuedEvents_record, takenEvents_record]
  rfl

/-! ## Balance -/

theorem balanced_new (config : Config) (factory : Option Factory) :
    (new config factory).Balanced := ⟨rfl, fun _ => rfl⟩

theorem SameSchedule.queuedEvents_eq (h : SameSchedule engine after) :
    after.queuedEvents = engine.queuedEvents := by
  unfold queuedEvents
  rw [h.journal]

theorem SameSchedule.takenEvents_eq (h : SameSchedule engine after) :
    after.takenEvents = engine.takenEvents := by
  unfold takenEvents
  rw [h.journal]

theorem SameSchedule.balanced (hsame : SameSchedule engine after) (h : engine.Balanced) :
    after.Balanced := by
  refine ⟨?_, fun hdepth => ?_⟩
  · unfold AccountsForEvents
    rw [hsame.queuedEvents_eq, hsame.takenEvents_eq, hsame.queue, hsame.deferred]
    exact h.accounts
  · rw [hsame.deferred]
    exact h.flushed (hsame.depth ▸ hdepth)

theorem Balanced.queuedEvents_eq (h : engine.Balanced) :
    engine.queuedEvents = engine.takenEvents ++ engine.queue ++ engine.deferred := h.accounts

/-- A line about something else than queues changes nothing. -/
theorem Balanced.record (h : engine.Balanced) {entry : Entry} (hqueued : entry.queued? = none)
    (htaken : entry.taken? = none) : (engine.record entry).Balanced := by
  refine ⟨accountsForEvents_record.2 ?_, h.flushed⟩
  rw [hqueued, htaken, h.queuedEvents_eq]
  simp

theorem enqueue_of_depth_pos (h : 0 < engine.depth) (raised : Raised) :
    engine.enqueue raised =
      { engine with deferred := engine.deferred ++ [raised] }.record (.queued raised true) := by
  unfold enqueue isProcessing
  rw [if_pos (by simpa using h)]

theorem enqueue_of_depth_eq_zero (h : engine.depth = 0) (raised : Raised) :
    engine.enqueue raised =
      { engine with queue := engine.queue ++ [raised] }.record (.queued raised false) := by
  unfold enqueue isProcessing
  rw [if_neg (by simp [h])]

/-- An event that comes in goes to the end of all that waits. -/
theorem Balanced.enqueue (h : engine.Balanced) (raised : Raised) :
    (engine.enqueue raised).Balanced := by
  by_cases hdepth : engine.depth = 0
  · -- The main queue grows only while nothing is deferred, so its end is the end of all.
    have hflushed := h.flushed hdepth
    rw [enqueue_of_depth_eq_zero hdepth]
    refine ⟨accountsForEvents_record.2 ?_, fun _ => hflushed⟩
    show engine.queuedEvents ++ [raised] =
      engine.takenEvents ++ [] ++ (engine.queue ++ [raised]) ++ engine.deferred
    rw [h.queuedEvents_eq, hflushed]
    simp
  · rw [enqueue_of_depth_pos (Nat.pos_of_ne_zero hdepth)]
    refine ⟨accountsForEvents_record.2 ?_, fun hzero => absurd hzero hdepth⟩
    show engine.queuedEvents ++ [raised] =
      engine.takenEvents ++ [] ++ engine.queue ++ (engine.deferred ++ [raised])
    rw [h.queuedEvents_eq]
    simp

theorem Balanced.deliver (h : engine.Balanced) : engine.deliver.Balanced := by
  refine deliver_keeps (fun raised _ h => h.enqueue raised) ?_ ?_
  · intro listener note raised engine h
    exact h.record rfl rfl
  · have hsame : SameSchedule engine { engine with forest := engine.forest.emptied } :=
      ⟨rfl, rfl, rfl, rfl, rfl⟩
    exact hsame.balanced h

theorem Balanced.change (hchange : Change allowed engine after) (h : engine.Balanced) :
    after.Balanced := by
  rcases hchange.schedule with hsame | ⟨forest, rfl⟩ | ⟨data, rfl⟩
  · exact hsame.balanced h
  · have hsame : SameSchedule engine { engine with forest } := ⟨rfl, rfl, rfl, rfl, rfl⟩
    exact (hsame.balanced h).deliver
  · exact h.record rfl rfl

theorem Balanced.enter (h : engine.Balanced) : engine.enter.Balanced :=
  ⟨h.accounts, fun hdepth => absurd hdepth (Nat.succ_ne_zero engine.depth)⟩

/-- When the outermost event is done, what was deferred goes to the end of the queue. -/
theorem Balanced.leave (h : engine.Balanced) : engine.leave.Balanced := by
  unfold Engine.leave
  split
  · refine ⟨?_, fun _ => rfl⟩
    show engine.queuedEvents = engine.takenEvents ++ (engine.queue ++ engine.deferred) ++ []
    rw [List.append_nil, ← List.append_assoc]
    exact h.accounts
  next hdeep =>
    refine ⟨h.accounts, fun hdepth => ?_⟩
    have hzero : engine.depth - 1 = 0 := hdepth
    omega

theorem Balanced.take (h : engine.Balanced) {raised : Raised}
    (htaken : engine.takeNext? = some (raised, after)) : after.Balanced := by
  obtain ⟨rest, hqueue, rfl⟩ := takeNext?_eq_some htaken
  -- The event moves from the head of the queue to the end of those taken.
  refine ⟨accountsForEvents_record.2 ?_, h.flushed⟩
  show engine.queuedEvents ++ [] = engine.takenEvents ++ [raised] ++ rest ++ engine.deferred
  rw [h.queuedEvents_eq, hqueue]
  simp

theorem balanced_stays : Stays allowed Balanced := by
  intro engine after hstep h
  cases hstep with
  | change hchange => exact h.change hchange
  | draw => exact ⟨h.accounts, h.flushed⟩
  | fire => exact h.record rfl rfl
  | enter => exact h.enter
  | leave => exact h.leave
  | take htaken => exact h.take htaken
  | startPump => exact ⟨h.accounts, h.flushed⟩
  | stopPump => exact ⟨h.accounts, h.flushed⟩

/-! ## While an event is processed -/

theorem Defers.refl (engine : Engine) : Defers engine engine :=
  ⟨rfl, rfl, [], by simp, by simp⟩

theorem Defers.trans (hfirst : Defers engine after) (hsecond : Defers after last) :
    Defers engine last := by
  obtain ⟨first, hqueued, hdeferred⟩ := hfirst.chained
  obtain ⟨second, hqueued', hdeferred'⟩ := hsecond.chained
  refine ⟨hsecond.taken.trans hfirst.taken, hsecond.queue.trans hfirst.queue, first ++ second,
    ?_, ?_⟩
  · rw [hqueued', hqueued, List.append_assoc]
  · rw [hdeferred', hdeferred, List.append_assoc]

theorem SameSchedule.defers (h : SameSchedule engine after) : Defers engine after :=
  ⟨h.takenEvents_eq, h.queue, [], by simp [h.queuedEvents_eq], by simp [h.deferred]⟩

theorem defers_record (engine : Engine) {entry : Entry} (hqueued : entry.queued? = none)
    (htaken : entry.taken? = none) : Defers engine (engine.record entry) := by
  refine ⟨?_, rfl, [], ?_, by simp [record]⟩
  · simp [takenEvents_record, htaken]
  · simp [queuedEvents_record, hqueued]

theorem defers_enqueue (h : 0 < engine.depth) (raised : Raised) :
    Defers engine (engine.enqueue raised) := by
  rw [enqueue_of_depth_pos h]
  refine ⟨?_, rfl, [raised], ?_, rfl⟩
  · rw [takenEvents_record]
    exact List.append_nil _
  · rw [queuedEvents_record]
    rfl

theorem defers_deliver (h : 0 < engine.depth) : Defers engine engine.deliver := by
  -- The count must be kept along, since it decides where an event goes.
  have hdefers := @deliver_keeps (fun after => after.depth = engine.depth ∧ Defers engine after)
    ?_ ?_ engine ⟨rfl, SameSchedule.defers ⟨rfl, rfl, rfl, rfl, rfl⟩⟩
  · exact hdefers.2
  · rintro raised after ⟨hdepth, hdefers⟩
    have hpositive : 0 < after.depth := hdepth ▸ h
    refine ⟨?_, hdefers.trans (defers_enqueue hpositive raised)⟩
    rw [enqueue_of_depth_pos hpositive]
    exact hdepth
  · rintro listener note raised after ⟨hdepth, hdefers⟩
    exact ⟨hdepth, hdefers.trans (defers_record after rfl rfl)⟩

theorem Change.defers (h : Change allowed engine after) (hdepth : 0 < engine.depth) :
    Defers engine after := by
  rcases h.schedule with hsame | ⟨forest, rfl⟩ | ⟨data, rfl⟩
  · exact hsame.defers
  · have hsame : SameSchedule engine { engine with forest } := ⟨rfl, rfl, rfl, rfl, rfl⟩
    have hdeliver : Defers { engine with forest } { engine with forest }.deliver :=
      defers_deliver hdepth
    exact hsame.defers.trans hdeliver
  · exact defers_record engine rfl rfl

/-- While an event is processed no pump starts, so nothing is taken from the queue, and what comes
in is deferred. -/
theorem Course.defers (h : Course allowed stage engine after) :
    stage ≠ .draining → 0 < engine.depth → Defers engine after := by
  induction h with
  | refl _ engine => exact fun _ _ => .refl engine
  | trans hbefore _ ih₁ ih₂ =>
    intro hstage hdepth
    exact (ih₁ hstage hdepth).trans (ih₂ hstage (hbefore.depth_eq ▸ hdepth))
  | change hchange => exact fun _ hdepth => hchange.defers hdepth
  | draw => exact fun _ _ => ⟨rfl, rfl, [], (List.append_nil _).symm, (List.append_nil _).symm⟩
  | fire engine => exact fun _ _ => defers_record engine rfl rfl
  | effects _ ih => exact fun _ hdepth => ih (by simp) hdepth
  | @process engine after hrules ih =>
    intro _ hdepth
    -- An event is still being processed after this one, so nothing moves to the queue.
    have hafter : after.depth = engine.depth + 1 := hrules.depth_eq
    have hinside := ih (by simp) (Nat.succ_pos engine.depth)
    unfold Engine.leave
    rw [if_neg (by omega)]
    exact ⟨hinside.taken, hinside.queue, hinside.chained⟩
  | take => exact fun hstage => absurd rfl hstage
  | serve => exact fun hstage => absurd rfl hstage
  | pump hidle =>
    -- A pump starts in an idle engine only.
    intro _ hdepth
    simp only [isIdle, Bool.and_eq_true, beq_iff_eq] at hidle
    omega

/-- Where the events went that came in while one was processed. -/
structure Chains (engine left : Engine) (chained : List Raised) : Prop where
  queued : left.queuedEvents = engine.queuedEvents ++ chained
  outermost : engine.depth = 0 →
    left.queue = engine.queue ++ engine.deferred ++ chained ∧ left.deferred = []
  inside : 0 < engine.depth →
    left.queue = engine.queue ∧ left.deferred = engine.deferred ++ chained

/-- An event that is processed takes nothing from the queue, and what it sets off comes last. -/
theorem process_defers {callbacks : Callbacks} {depth : Nat} {raised : Raised}
    {engine left : Engine} {outcome : Except Error Unit}
    (h : (process (invoker callbacks depth) raised).start engine = some (outcome, left)) :
    left.takenEvents = engine.takenEvents ∧ ∃ chained, Chains engine left chained := by
  obtain ⟨after, hrules, rfl⟩ := process_eq_some _ h
  have hcourse := course_of_runRules callbacks.askOnly_true hrules
  have hdepth : after.depth = engine.depth + 1 := hcourse.depth_eq
  have hdefers := hcourse.defers (by simp) (Nat.succ_pos engine.depth)
  have hqueue : after.queue = engine.queue := hdefers.queue
  obtain ⟨chained, hqueued, hdeferred⟩ := hdefers.chained
  have hdeferred : after.deferred = engine.deferred ++ chained := hdeferred
  unfold Engine.leave
  by_cases houtermost : engine.depth = 0
  · -- The deferred events move to the queue, those from before ahead of the new ones.
    rw [if_pos (by omega)]
    refine ⟨hdefers.taken, chained, hqueued, fun _ => ⟨?_, rfl⟩, fun hdeep => by omega⟩
    show after.queue ++ after.deferred = _
    rw [hqueue, hdeferred, List.append_assoc]
  · rw [if_neg (by omega)]
    exact ⟨hdefers.taken, chained, hqueued, fun h => absurd h houtermost,
      fun _ => ⟨hqueue, hdeferred⟩⟩

/-! ## The law -/

/-- No event is lost, doubled or overtaken. At the end of every run, and whenever a program or a
callback sees the engine, the events that the scheduler ever took on are those that pumps took so
far, then those in the queue, then the deferred ones. And as long as an event is processed, by a
program, a callback or a pump, no event is taken: those that came in meanwhile stand behind all
that waited before, in the queue if this was the outermost event, and among the deferred ones if it
was not. -/
theorem events_keep_their_order {α : Type} (callbacks : Callbacks) (depth : Nat)
    (program : Program α) (config : Config) (factory : Option Factory) :
    Upholds AccountsForEvents callbacks depth program (new config factory) ∧
      ∀ raised engine outcome left,
        (process (invoker callbacks depth) raised).start engine = some (outcome, left) →
          left.takenEvents = engine.takenEvents ∧ ∃ chained, Chains engine left chained := by
  refine ⟨?_, fun raised engine outcome left hprocess => process_defers hprocess⟩
  exact upholds_of_stays balanced_stays (fun _ h => h.accounts) callbacks.askOnly_true depth
    program.asksOnly_true (balanced_new config factory)

/-- The bench is used twice, the second time by hand: five events are taken, then four wait. -/
theorem lighting_keeps_the_order :
    ∃ result after outcome left,
      run moving 1 lighting (new {} torches) = some (result, after) ∧
        after.takenEvents.length = 5 ∧ after.AccountsForEvents ∧
        (process (invoker moving 1) ⟨⟨0⟩, .use⟩).start after = some (outcome, left) ∧
        left.queue.length = 4 ∧ left.takenEvents = after.takenEvents ∧
          ∃ chained, Chains after left chained := by
  have hcounts : ((run moving 1 lighting (new {} torches)).bind fun (_, after) =>
      ((process (invoker moving 1) ⟨⟨0⟩, .use⟩).start after).map fun (_, left) =>
        (after.takenEvents.length, left.queue.length)) = some (5, 4) := by
    decide +kernel
  obtain ⟨⟨result, after⟩, hrun, hafter⟩ := Option.bind_eq_some_iff.1 hcounts
  obtain ⟨⟨outcome, left⟩, hprocess, hlengths⟩ := Option.map_eq_some_iff.1 hafter
  obtain ⟨htaken, hqueue⟩ := Prod.mk.inj hlengths
  obtain ⟨haccounts, hdefers⟩ := events_keep_their_order moving 1 lighting {} (some torches)
  exact ⟨result, after, outcome, left, hrun, htaken, haccounts.final hrun, hprocess, hqueue,
    hdefers ⟨⟨0⟩, .use⟩ after outcome left hprocess⟩

end Engine

end CardRules
