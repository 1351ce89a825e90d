import CardRules.Proofs.Queues

/-!
Pumps one after the other. Two pumps in a row do what one pump does that may take as many events as
both together; a pump takes as many events as it says, and stops at its limit, at the end of the
queue, or right behind an event that fails.
-/

namespace CardRules.Engine

open EngineM

/-! ## Draining in two goes -/

section

variable (invoke : Invoker) (engine : Engine)

theorem start_drain_add (left more count : Nat) :
    (drain invoke (left + more) count).start engine =
      (drain invoke left count >>= fun total => drain invoke more total).start engine := by
  induction left generalizing count engine with
  | zero =>
    rw [Nat.zero_add, start_bind]
    rfl
  | succ left ih =>
    rw [Nat.succ_add]
    cases hnext : engine.takeNext? with
    | none =>
      rw [start_drain_of_none engine invoke hnext, start_bind,
        start_drain_of_none engine invoke hnext]
      -- The queue is empty, so the second go ends at once too.
      cases more with
      | zero => rfl
      | succ more => exact (start_drain_of_none engine invoke hnext).symm
    | some next =>
      obtain ⟨raised, taken⟩ := next
      rw [start_drain_of_some engine invoke hnext, start_bind, start_bind,
        start_drain_of_some engine invoke hnext, start_bind]
      rcases (process invoke raised).start taken with _ | ⟨error | ⟨⟩, served⟩
      · rfl
      · rfl
      · simp only [ih, start_bind]

/-- How many events were taken before only adds to the count. -/
theorem start_drain_shift (left before count : Nat) :
    (drain invoke left (before + count)).start engine =
      ((before + ·) <$> drain invoke left count).start engine := by
  induction left generalizing count engine with
  | zero => rfl
  | succ left ih =>
    rw [start_map]
    cases hnext : engine.takeNext? with
    | none =>
      rw [start_drain_of_none engine invoke hnext, start_drain_of_none engine invoke hnext]
      rfl
    | some next =>
      obtain ⟨raised, taken⟩ := next
      rw [start_drain_of_some engine invoke hnext, start_drain_of_some engine invoke hnext,
        start_bind, start_bind]
      rcases (process invoke raised).start taken with _ | ⟨error | ⟨⟩, served⟩
      · rfl
      · rfl
      · simp only [Nat.add_assoc, ih, start_map]

end

section

variable {callbacks : Callbacks} {depth : Nat} {engine after : Engine}

theorem course_of_drain {left count : Nat} {outcome : Except Error Nat}
    (h : (drain (invoker callbacks depth) left count).start engine = some (outcome, after)) :
    Course (fun _ => True) .draining engine after :=
  (alike_drain stays_true (.ofAll (follows_invoker callbacks.askOnly_true depth)) left count engine
    trivial).course h

/-- An engine is idle again once a pump is over. -/
theorem isIdle_of_pump {limit : Nat} {outcome : Except Error Nat} (hidle : engine.isIdle = true)
    (h : (pump (invoker callbacks depth) limit).start engine = some (outcome, after)) :
    after.isIdle = true := by
  have hcourse : Course (fun _ => True) .acting engine after :=
    (alike_pump stays_true (.ofAll (follows_invoker callbacks.askOnly_true depth)) limit engine
      trivial).course h
  unfold isIdle at hidle ⊢
  rw [hcourse.pumping_eq, hcourse.depth_eq]
  exact hidle

/-- An idle engine that pumps twice pumps once, up to both limits together. -/
theorem start_pump_add (callbacks : Callbacks) (depth : Nat) (hidle : engine.isIdle = true)
    (first second : Nat) :
    (pump (invoker callbacks depth) (first + second)).start engine =
      (do
        let taken ← pump (invoker callbacks depth) first
        let more ← pump (invoker callbacks depth) second
        return taken + more).start engine := by
  rw [start_pump_of_isIdle engine _ _ hidle, start_bind, start_pump_of_isIdle engine _ _ hidle,
    start_thenAlways, start_thenAlways, start_drain_add, start_bind]
  cases hdrain : (drain (invoker callbacks depth) first 0).start
      { engine with pumping := true } with
  | none => rfl
  | some ended =>
    obtain ⟨error | taken, served⟩ := ended
    · rfl
    · -- Between the two pumps the engine is idle again, and else as the first one left it.
      have hcourse := course_of_drain hdrain
      have hpumping : served.pumping = true := hcourse.pumping_eq
      have hfirst : (pump (invoker callbacks depth) first).start engine =
          some (.ok taken, { served with pumping := false }) := by
        rw [start_pump_of_isIdle engine _ _ hidle, start_thenAlways, hdrain]
        rfl
      have hagain := isIdle_of_pump hidle hfirst
      have hsame : { { served with pumping := false } with pumping := true } = served := by
        rw [← hpumping]
      have hshift := start_drain_shift (invoker callbacks depth) served second taken 0
      rw [Nat.add_zero] at hshift
      simp only [Option.map_some, start_bind]
      rw [start_pump_of_isIdle _ _ _ hagain, hsame, start_thenAlways, hshift, start_map]
      rcases (drain (invoker callbacks depth) second 0).start served with _ | ⟨error | more, last⟩
      · rfl
      · rfl
      · rfl

/-! ## What a pump takes -/

/-- These events were taken from the queue, and they are all: what waited at first and what came in
meanwhile, in this order, are the events that were taken and those that wait now. -/
structure Takes (engine after : Engine) (events : List Raised) : Prop where
  taken : after.takenEvents = engine.takenEvents ++ events
  waiting : ∃ chained, after.queuedEvents = engine.queuedEvents ++ chained ∧
    engine.queue ++ engine.deferred ++ chained = events ++ after.queue ++ after.deferred

theorem Takes.refl (engine : Engine) : Takes engine engine [] :=
  ⟨(List.append_nil _).symm, [], (List.append_nil _).symm, by simp⟩

theorem Takes.trans {middle : Engine} {events others : List Raised}
    (h : Takes engine middle events) (h' : Takes middle after others) :
    Takes engine after (events ++ others) := by
  obtain ⟨first, hqueued, hwaiting⟩ := h.waiting
  obtain ⟨second, hqueued', hwaiting'⟩ := h'.waiting
  refine ⟨by rw [h'.taken, h.taken, List.append_assoc], first ++ second, ?_, ?_⟩
  · rw [hqueued', hqueued, List.append_assoc]
  · calc engine.queue ++ engine.deferred ++ (first ++ second)
      _ = engine.queue ++ engine.deferred ++ first ++ second := (List.append_assoc ..).symm
      _ = events ++ (middle.queue ++ middle.deferred ++ second) := by
        rw [hwaiting]
        simp only [List.append_assoc]
      _ = events ++ others ++ after.queue ++ after.deferred := by
        rw [hwaiting']
        simp only [List.append_assoc]

/-- An idle engine is as it was once a pump that takes nothing is over. -/
theorem stopped_started (hidle : engine.isIdle = true) :
    { { engine with pumping := true } with pumping := false } = engine := by
  have hpumping : engine.pumping = false := by simpa using (Bool.and_eq_true_iff.1 hidle).1
  rw [← hpumping]

theorem start_pump_zero (invoke : Invoker) (hidle : engine.isIdle = true) :
    (pump invoke 0).start engine = some (.ok 0, engine) := by
  rw [start_pump_of_isIdle engine invoke 0 hidle]
  exact congrArg (fun engine => some (Except.ok 0, engine)) (stopped_started hidle)

theorem start_pump_of_queue_eq_nil (invoke : Invoker) (hidle : engine.isIdle = true)
    (hqueue : engine.queue = []) (limit : Nat) :
    (pump invoke limit).start engine = some (.ok 0, engine) := by
  cases limit with
  | zero => exact start_pump_zero invoke hidle
  | succ limit =>
    have hnext : { engine with pumping := true }.takeNext? = none := by
      unfold takeNext?
      rw [hqueue]
    rw [start_pump_of_isIdle engine invoke _ hidle, start_thenAlways,
      start_drain_of_none _ invoke hnext]
    exact congrArg (fun engine => some (Except.ok 0, engine)) (stopped_started hidle)

theorem start_pump_one (invoke : Invoker) {raised : Raised} {taken : Engine}
    (hidle : engine.isIdle = true) (hnext : engine.takeNext? = some (raised, taken)) :
    (pump invoke 1).start engine =
      ((process invoke raised).start { taken with pumping := true }).map fun ended =>
        (ended.1.map fun _ => 1, { ended.2 with pumping := false }) := by
  obtain ⟨rest, hqueue, rfl⟩ := takeNext?_eq_some hnext
  have hnext' : { engine with pumping := true }.takeNext? =
      some (raised, { { engine with queue := rest }.record (.taken raised) with
        pumping := true }) := by
    unfold takeNext?
    rw [hqueue]
    rfl
  rw [start_pump_of_isIdle engine invoke 1 hidle, start_thenAlways,
    start_drain_of_some _ invoke hnext', start_bind]
  rcases (process invoke raised).start _ with _ | ⟨error | ⟨⟩, after⟩ <;> rfl

/-- An event that is taken and processed at rest: it is the only one taken, whether or not it fails,
and nothing is left deferred. -/
theorem takes_process {taken : Engine} {raised : Raised} {outcome : Except Error Unit}
    (hnext : engine.takeNext? = some (raised, taken)) (hdepth : engine.depth = 0)
    (h : (process (invoker callbacks depth) raised).start { taken with pumping := true } =
      some (outcome, after)) :
    Takes engine { after with pumping := false } [raised] ∧ after.deferred = [] := by
  obtain ⟨rest, hqueue, rfl⟩ := takeNext?_eq_some hnext
  obtain ⟨htaken, chained, hchains⟩ := process_defers h
  obtain ⟨hafter, hdeferred⟩ := hchains.outermost hdepth
  have hnow : after.queue = rest ++ engine.deferred ++ chained := hafter
  refine ⟨⟨?_, chained, ?_, ?_⟩, hdeferred⟩
  · calc after.takenEvents
      _ = ({ engine with queue := rest }.record (.taken raised)).takenEvents := htaken
      _ = engine.takenEvents ++ [raised] := takenEvents_record ..
  · calc after.queuedEvents
      _ = ({ engine with queue := rest }.record (.taken raised)).queuedEvents ++ chained :=
        hchains.queued
      _ = engine.queuedEvents ++ chained :=
        congrArg (· ++ chained) ((queuedEvents_record ..).trans (List.append_nil _))
  · show engine.queue ++ engine.deferred ++ chained = [raised] ++ after.queue ++ after.deferred
    rw [hnow, hqueue, hdeferred]
    simp

/-- How a pump ends that took these events. Either all of them were served, and there were as many
as might be taken or none is left; or all but the last were served, as by a pump of their number,
and that one failed when it was processed. -/
inductive PumpsTo (invoke : Invoker) (engine : Engine) (limit : Nat) :
    List Raised → Except Error Nat → Engine → Prop
  | served {events : List Raised} {after : Engine} (within : events.length ≤ limit)
    (ended : events.length = limit ∨ after.queue = []) :
    PumpsTo invoke engine limit events (.ok events.length) after
  | failed {before : List Raised} {failing : Raised} {error : Error} {here taken after : Engine}
    (within : before.length < limit)
    (served : (pump invoke before.length).start engine = some (.ok before.length, here))
    (next : here.takeNext? = some (failing, taken))
    (fails : (process invoke failing).start { taken with pumping := true } =
      some (.error error, after))
    (flushed : after.deferred = []) :
    PumpsTo invoke engine limit (before ++ [failing]) (.error error)
      { after with pumping := false }

/-- One more event was served ahead of all others. -/
theorem PumpsTo.cons {limit : Nat} {events : List Raised} {outcome : Except Error Nat}
    {raised : Raised} {here : Engine} (hidle : engine.isIdle = true)
    (hfirst : (pump (invoker callbacks depth) 1).start engine = some (.ok 1, here))
    (h : PumpsTo (invoker callbacks depth) here limit events outcome after) :
    PumpsTo (invoker callbacks depth) engine (limit + 1) (raised :: events)
      (outcome.map (1 + ·)) after := by
  cases h with
  | served within ended =>
    show PumpsTo _ _ _ _ (.ok (1 + events.length)) _
    rw [Nat.add_comm 1]
    have hwithin : (raised :: events).length ≤ limit + 1 := Nat.succ_le_succ within
    exact .served hwithin (ended.imp (congrArg (· + 1)) id)
  | @failed before failing error last _ _ within served next fails flushed =>
    have hwithin : (raised :: before).length < limit + 1 := Nat.succ_lt_succ within
    refine .failed hwithin ?_ next fails flushed
    show (pump _ (before.length + 1)).start engine = some (.ok (before.length + 1), last)
    rw [Nat.add_comm, start_pump_add callbacks depth hidle, start_bind, hfirst]
    simp only [start_bind, served]
    rfl

/-- After a first event that did not fail, a pump goes on like one for the other events. -/
theorem exists_rest_of_pump {limit : Nat} {outcome : Except Error Nat} {middle : Engine}
    (hidle : engine.isIdle = true)
    (hone : (pump (invoker callbacks depth) 1).start engine = some (.ok 1, middle))
    (h : (pump (invoker callbacks depth) (limit + 1)).start engine = some (outcome, after)) :
    ∃ outcome', (pump (invoker callbacks depth) limit).start middle = some (outcome', after) ∧
      outcome = outcome'.map (1 + ·) := by
  rw [Nat.add_comm, start_pump_add callbacks depth hidle, start_bind, hone] at h
  simp only [start_bind] at h
  cases hrest : (pump (invoker callbacks depth) limit).start middle with
  | none => simp [hrest] at h
  | some ended =>
    obtain ⟨error | count, last⟩ := ended
    · simp only [hrest] at h
      cases h
      exact ⟨_, rfl, rfl⟩
    · simp only [hrest] at h
      cases h
      exact ⟨_, rfl, rfl⟩

theorem exists_pumpsTo {limit : Nat} {outcome : Except Error Nat} (hidle : engine.isIdle = true)
    (h : (pump (invoker callbacks depth) limit).start engine = some (outcome, after)) :
    ∃ events, Takes engine after events ∧
      PumpsTo (invoker callbacks depth) engine limit events outcome after := by
  induction limit generalizing engine outcome with
  | zero =>
    rw [start_pump_zero _ hidle] at h
    cases h
    exact ⟨[], .refl _, .served (Nat.le_refl 0) (.inl rfl)⟩
  | succ limit ih =>
    cases hqueue : engine.queue with
    | nil =>
      rw [start_pump_of_queue_eq_nil _ hidle hqueue] at h
      cases h
      exact ⟨[], .refl _, .served (Nat.zero_le _) (.inr hqueue)⟩
    | cons raised rest =>
      obtain ⟨taken, hnext⟩ : ∃ taken, engine.takeNext? = some (raised, taken) := by
        unfold takeNext?
        rw [hqueue]
        exact ⟨_, rfl⟩
      have hdepth : engine.depth = 0 := by simpa using (Bool.and_eq_true_iff.1 hidle).2
      -- One event is taken ahead of all others, by a pump of its own.
      have hone := start_pump_one (invoker callbacks depth) hidle hnext
      cases hprocess : (process (invoker callbacks depth) raised).start
          { taken with pumping := true } with
      | none =>
        rw [Nat.add_comm, start_pump_add callbacks depth hidle, start_bind, hone, hprocess] at h
        cases h
      | some ended =>
        obtain ⟨outcome', left⟩ := ended
        obtain ⟨htakes, hflushed⟩ := takes_process hnext hdepth hprocess
        rw [hprocess] at hone
        cases outcome' with
        | error error =>
          rw [Nat.add_comm, start_pump_add callbacks depth hidle, start_bind, hone] at h
          cases h
          have hwithin : ([] : List Raised).length < limit + 1 := Nat.succ_pos limit
          exact ⟨[raised], htakes, .failed hwithin (start_pump_zero _ hidle) hnext hprocess hflushed⟩
        | ok _ =>
          have hagain : { left with pumping := false }.isIdle = true :=
            isIdle_of_pump hidle hone
          obtain ⟨outcome', hrest, rfl⟩ := exists_rest_of_pump hidle hone h
          obtain ⟨events, htakes', hends⟩ := ih hagain hrest
          exact ⟨raised :: events, htakes.trans htakes', hends.cons hidle hone⟩

/-- Pumps compose, and they count what they take. From an idle engine, a pump up to one limit and
then, unless it fails, a pump up to another do what a single pump does up to the sum of the limits:
the same engine in the end, the sum of the counts, or the same error. And a pump takes as many events
as it says, in the order in which they waited and came in, among them those raised meanwhile: as many
as it may, or until none is left, or up to the first event that fails, which is gone from the queue
while all later ones wait there. -/
theorem pumps_compose_and_count (callbacks : Callbacks) (depth : Nat)
    (hidle : engine.isIdle = true) :
    (∀ first second, (pump (invoker callbacks depth) (first + second)).start engine =
      (do
        let taken ← pump (invoker callbacks depth) first
        let more ← pump (invoker callbacks depth) second
        return taken + more).start engine) ∧
      ∀ limit outcome after,
        (pump (invoker callbacks depth) limit).start engine = some (outcome, after) →
          ∃ events, Takes engine after events ∧
            PumpsTo (invoker callbacks depth) engine limit events outcome after :=
  ⟨start_pump_add callbacks depth hidle, fun _ _ _ h => exists_pumpsTo hidle h⟩

end

/-- A bell that rings again whenever it was rung, and a ring that waits. -/
def echoing : Engine :=
  { (new { autoPump := false }).addCard { id := "bell", category := .item } with
    rules := [{ name := "ring", trigger := .custom, effects :=
      [.signal { scope := .source } "rung" none] }],
    queue := [⟨⟨0⟩, .custom "rung" none⟩] }

/-- Five rings of the bell, at once or in two goes; the next one waits. -/
theorem echoes_compose :
    ∃ after events, (pump (invoker moving 0) (2 + 3)).start echoing = some (.ok 5, after) ∧
      after.queue.length = 1 ∧
      (do
        let taken ← pump (invoker moving 0) 2
        let more ← pump (invoker moving 0) 3
        return taken + more).start echoing = some (.ok 5, after) ∧
      Takes echoing after events ∧
      PumpsTo (invoker moving 0) echoing (2 + 3) events (.ok 5) after := by
  have hfacts : ((pump (invoker moving 0) (2 + 3)).start echoing).map (fun (outcome, after) =>
      (outcome.toOption, after.queue.length)) = some (some 5, 1) := by
    decide +kernel
  obtain ⟨⟨outcome, after⟩, hpump, hvalues⟩ := Option.map_eq_some_iff.1 hfacts
  obtain ⟨hcount, hwaiting⟩ := Prod.mk.inj hvalues
  have hidle : echoing.isIdle = true := rfl
  obtain ⟨hcompose, hends⟩ := pumps_compose_and_count moving 0 hidle
  cases outcome with
  | error error => cases hcount
  | ok count =>
    cases hcount
    obtain ⟨events, htakes, hpumps⟩ := hends _ _ _ hpump
    exact ⟨after, events, hpump, hwaiting, (hcompose 2 3).symm.trans hpump, htakes, hpumps⟩

end CardRules.Engine
