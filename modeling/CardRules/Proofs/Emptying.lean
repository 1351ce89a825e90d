import CardRules.Proofs.Declarative
import CardRules.Proofs.Pumping

/-!
Pumping until the queue is empty. An event that no rule reacts to is taken from the queue and
nothing comes of it; so a queue of such events is empty after enough pumps, and none of them fails.
-/

namespace CardRules.Engine

open EngineM

/-- No rule reacts to an event. -/
def Ignores (engine : Engine) (raised : Raised) : Prop := engine.candidates raised.event = []

/-- Pumps one after the other until the queue is empty, none of which fails. -/
inductive PumpsOut (invoke : Invoker) : Engine → Engine → Prop
  | empty {engine : Engine} (empty : engine.queue = []) : PumpsOut invoke engine engine
  | pump {engine here after : Engine} {count : Nat} (waiting : engine.queue ≠ [])
    (pumped : (perform invoke .pumpAll).start engine = some (.ok (.count count), here))
    (rest : PumpsOut invoke here after) : PumpsOut invoke engine after

variable {engine : Engine} {raised : Raised}

theorem AtRest.idle (h : engine.AtRest) : engine.isIdle = true := by
  simp [isIdle, h.depth, h.pumping]

/-- Pumps end in one engine only. -/
theorem PumpsOut.unique {invoke : Invoker} {after other : Engine}
    (h : PumpsOut invoke engine after) (h' : PumpsOut invoke engine other) : other = after := by
  induction h with
  | empty hempty =>
    cases h' with
    | empty => rfl
    | pump hwaiting => exact absurd hempty hwaiting
  | pump hwaiting hpumped _ ih =>
    cases h' with
    | empty hempty => exact absurd hempty hwaiting
    | pump _ hpumped' hrest' =>
      obtain ⟨-, rfl⟩ := Prod.mk.inj (Option.some.inj (hpumped.symm.trans hpumped'))
      exact ih hrest'

/-- Pumps of rules without callbacks keep what each of their steps keeps. -/
theorem PumpsOut.keeps {invoke : Invoker} {after : Engine} {condition : Engine → Prop}
    (h : PumpsOut invoke engine after) (hstays : Stays (fun _ => False) condition)
    (hrules : engine.Declarative) (hbefore : condition engine) : condition after := by
  induction h with
  | empty => exact hbefore
  | @pump engine here after count _ hpumped _ ih =>
    have hpump : (Engine.pump invoke engine.config.maxEventsPerPump).start engine =
        some (.ok count, here) := by
      change (Answer.count <$> pumpAll _).start engine = _ at hpumped
      rw [start_map, start_pumpAll] at hpumped
      obtain ⟨⟨result, last⟩, hstart, heq⟩ := Option.map_eq_some_iff.1 hpumped
      obtain ⟨hresult, rfl⟩ := Prod.mk.inj heq
      cases result with
      | error => cases hresult
      | ok =>
        cases hresult
        exact hstart
    have hcourse := hrules.course_of_pump hpump
    exact ih (hcourse.keeps declarative_stays hrules) (hcourse.keeps hstays hbefore)

theorem choose_nil (config : Config) : config.choose [] = [] := by
  unfold Config.choose
  cases config.ruleOrder <;> cases config.execution <;> simp

theorem choose_singleton (config : Config) (found : Match) : config.choose [found] = [found] := by
  unfold Config.choose
  cases config.ruleOrder <;> cases config.execution <;> simp

/-- To process an event that no rule matches changes nothing. -/
theorem start_process_of_findMatches (invoke : Invoker) (hdepth : engine.depth = 0)
    (hdeferred : engine.deferred = [])
    (hfound : engine.enter.findMatches raised = ([], engine.enter)) :
    (process invoke raised).start engine = some (.ok (), engine) := by
  have hleft : engine.enter.leave = engine := by
    have houtermost : engine.enter.depth ≤ 1 := Nat.succ_le_succ (Nat.le_of_eq hdepth)
    have hqueue : engine.enter.queue ++ engine.enter.deferred = engine.queue := by
      show engine.queue ++ engine.deferred = engine.queue
      rw [hdeferred, List.append_nil]
    rw [leave_of_depth houtermost, hqueue, ← hdepth, ← hdeferred]
    rfl
  rw [start_process, start_thenAlways, start_runRules, hfound, choose_nil]
  show some (Except.ok (), engine.enter.leave) = _
  rw [hleft]

theorem start_process_of_ignores (invoke : Invoker) (hdepth : engine.depth = 0)
    (hdeferred : engine.deferred = []) (h : engine.Ignores raised) :
    (process invoke raised).start engine = some (.ok (), engine) := by
  refine start_process_of_findMatches invoke hdepth hdeferred ?_
  have hcandidates : engine.enter.candidates raised.event = [] := h
  unfold findMatches
  rw [hcandidates]
  rfl

section

variable (callbacks : Callbacks) (levels : Nat)

/-- A pump takes ignored events off the queue and does nothing else. -/
theorem start_pump_of_ignores (h : engine.AtRest)
    (hignores : ∀ raised ∈ engine.queue, engine.Ignores raised) (limit : Nat) :
    ∃ count journal, (pump (invoker callbacks levels) limit).start engine =
      some (.ok count, { engine with queue := engine.queue.drop limit, journal }) := by
  induction limit generalizing engine with
  | zero => exact ⟨0, engine.journal, start_pump_zero _ h.idle⟩
  | succ limit ih =>
    cases hqueue : engine.queue with
    | nil =>
      refine ⟨0, engine.journal, ?_⟩
      rw [start_pump_of_queue_eq_nil _ h.idle hqueue, List.drop_nil, ← hqueue]
    | cons raised rest =>
      have hnext : engine.takeNext? =
          some (raised, { engine with queue := rest }.record (.taken raised)) := by
        unfold takeNext?
        rw [hqueue]
      -- The first event is taken by a pump of its own.
      let taken : Engine := { engine with queue := rest }.record (.taken raised)
      have hone : (pump (invoker callbacks levels) 1).start engine = some (.ok 1, taken) := by
        have hignored : { taken with pumping := true }.Ignores raised :=
          hignores raised (hqueue ▸ List.mem_cons_self)
        rw [start_pump_one _ h.idle hnext,
          @start_process_of_ignores { taken with pumping := true } _ _ h.depth h.deferred hignored]
        show some (_, { taken with pumping := false }) = _
        rw [← h.pumping]
        rfl
      have hrest : taken.AtRest := ⟨h.depth, h.pumping, h.deferred, h.outbox⟩
      have hothers : ∀ other ∈ taken.queue, taken.Ignores other :=
        fun other hmem => hignores other (hqueue ▸ List.mem_cons_of_mem _ hmem)
      obtain ⟨count, journal, hmore⟩ := ih hrest hothers
      refine ⟨1 + count, journal, ?_⟩
      rw [List.drop_succ_cons, Nat.add_comm limit, start_pump_add callbacks levels h.idle,
        start_bind, hone]
      simp only [start_bind, hmore]
      rfl

/-- Pumps empty a queue of ignored events. -/
theorem exists_pumpsOut_of_ignores (h : engine.AtRest) (hlimit : 0 < engine.config.maxEventsPerPump)
    (hignores : ∀ raised ∈ engine.queue, engine.Ignores raised) :
    ∃ journal, PumpsOut (invoker callbacks levels) engine { engine with queue := [], journal } := by
  -- Each pump leaves fewer events than it finds.
  induction hlength : engine.queue.length using Nat.strongRecOn generalizing engine with
  | _ length ih =>
    by_cases hqueue : engine.queue = []
    · refine ⟨engine.journal, ?_⟩
      rw [← hqueue]
      exact .empty hqueue
    · let limit := engine.config.maxEventsPerPump
      obtain ⟨count, journal, hpump⟩ := start_pump_of_ignores callbacks levels h hignores limit
      have hpumped : (perform (invoker callbacks levels) .pumpAll).start engine =
          some (.ok (.count count),
            { engine with queue := engine.queue.drop limit, journal }) := by
        show (Answer.count <$> pumpAll _).start engine = _
        rw [start_map, start_pumpAll, hpump]
        rfl
      let here : Engine := { engine with queue := engine.queue.drop limit, journal }
      have hless : here.queue.length < length := by
        have hpositive := List.length_pos_iff.2 hqueue
        show (engine.queue.drop limit).length < length
        rw [List.length_drop]
        omega
      have hhere : here.AtRest := ⟨h.depth, h.pumping, h.deferred, h.outbox⟩
      have hothers : ∀ raised ∈ here.queue, here.Ignores raised :=
        fun raised hmem => hignores raised (List.mem_of_mem_drop hmem)
      obtain ⟨journal', hrest⟩ := ih _ hless hhere hlimit hothers rfl
      exact ⟨journal', .pump hqueue hpumped hrest⟩

/-- One event is served, and what comes after it is ignored. -/
theorem exists_pumpsOut_of_served (h : engine.AtRest) (hlimit : 0 < engine.config.maxEventsPerPump)
    {taken served : Engine} (hnext : engine.takeNext? = some (raised, taken))
    (hserved : (process (invoker callbacks levels) raised).start { taken with pumping := true } =
      some (.ok (), served))
    (hafter : { served with pumping := false }.AtRest) (hconfig : served.config = engine.config)
    (hignores : ∀ other ∈ served.queue, served.Ignores other) :
    ∃ journal, PumpsOut (invoker callbacks levels) engine
      { served with pumping := false, queue := [], journal } := by
  obtain ⟨limit, hmore⟩ := Nat.exists_eq_add_of_lt hlimit
  have hone : (pump (invoker callbacks levels) 1).start engine =
      some (.ok 1, { served with pumping := false }) := by
    rw [start_pump_one _ h.idle hnext, hserved]
    rfl
  -- The pump that takes the event goes on with some of the others.
  obtain ⟨count, journal, hothers⟩ :=
    start_pump_of_ignores callbacks levels hafter hignores limit
  let here : Engine :=
    { served with pumping := false, queue := served.queue.drop limit, journal }
  have hpumped : (perform (invoker callbacks levels) .pumpAll).start engine =
      some (.ok (.count (1 + count)), here) := by
    show (Answer.count <$> pumpAll _).start engine = _
    rw [start_map, start_pumpAll, hmore, Nat.zero_add, Nat.add_comm limit,
      start_pump_add callbacks levels h.idle, start_bind, hone]
    simp only [start_bind, hothers]
    rfl
  have hwaiting : engine.queue ≠ [] := by
    obtain ⟨rest, hqueue, -⟩ := takeNext?_eq_some hnext
    rw [hqueue]
    exact List.cons_ne_nil _ _
  have hhere : here.AtRest := ⟨hafter.depth, hafter.pumping, hafter.deferred, hafter.outbox⟩
  have hpositive : 0 < here.config.maxEventsPerPump := by rwa [← hconfig] at hlimit
  obtain ⟨journal', hrest⟩ := exists_pumpsOut_of_ignores callbacks levels hhere hpositive
    fun raised hmem => hignores raised (List.mem_of_mem_drop hmem)
  exact ⟨journal', .pump hwaiting hpumped hrest⟩

end

end CardRules.Engine
