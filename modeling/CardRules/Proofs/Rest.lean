import CardRules.Proofs.Queues

/-!
Operations leave an engine at rest, whether they succeed or fail: no event is being processed, no
pump is under way, nothing is deferred, and all that was raised is handed out. While pumps come to
the end of the queue, nothing is left in the queue either.
-/

namespace CardRules

open EngineM

variable {α β : Type}

/-- A computation has an outcome only where another one has the same, and keeps a condition. -/
def EngineM.Refines (condition : Engine → Prop) (strict plain : EngineM α) : Prop :=
  ∀ engine, condition engine → ∀ result after, strict.start engine = some (result, after) →
    plain.start engine = some (result, after) ∧ condition after

/-! ## What a program reaches -/

/-- What a program and an engine come to, operation by operation: the rest of the program, and the
engine it goes on with. -/
inductive Program.Reaches (carryOut : Operation → EngineM Answer) (program : Program α)
    (engine : Engine) : Program α → Engine → Prop
  | start : Reaches carryOut program engine program engine
  | operation {operation : Operation} {next : Except Error Answer → Program α}
    {here after : Engine} {outcome : Except Error Answer}
    (before : Reaches carryOut program engine (.perform operation next) here)
    (returned : (carryOut operation).start here = some (outcome, after)) :
    Reaches carryOut program engine (next outcome) after
  | look {next : Engine → Program α} {here : Engine}
    (before : Reaches carryOut program engine (.inspect next) here) :
    Reaches carryOut program engine (next here) here
  | note {data : Data} {next : Program α} {here : Engine}
    (before : Reaches carryOut program engine (.note data next) here) :
    Reaches carryOut program engine next (here.record (.noted data))

namespace Program

variable {carryOut plain : Operation → EngineM Answer} {program rest : Program α}
  {engine here : Engine} {condition : Engine → Prop}

/-- A program gets to the same places with operations that have the same outcomes, and finds there
what they keep. -/
theorem Reaches.refines
    (hoperation : ∀ operation, Refines condition (carryOut operation) (plain operation))
    (hnote : ∀ here data, condition here → condition (here.record (.noted data)))
    (h : Reaches carryOut program engine rest here) (hstart : condition engine) :
    Reaches plain program engine rest here ∧ condition here := by
  induction h with
  | start => exact ⟨.start, hstart⟩
  | operation _ hreturned ih =>
    obtain ⟨hreached, hhere⟩ := ih
    obtain ⟨hplain, hafter⟩ := hoperation _ _ hhere _ _ hreturned
    exact ⟨hreached.operation hplain, hafter⟩
  | look _ ih => exact ⟨ih.1.look, ih.2⟩
  | note _ ih => exact ⟨ih.1.note, hnote _ _ ih.2⟩

/-- A run reaches the end of its program. -/
theorem reaches_of_run {value : α} {after : Engine}
    (h : (program.run carryOut).start here = some (.ok value, after))
    (hreached : Reaches carryOut rest engine program here) :
    Reaches carryOut rest engine (.done value) after := by
  induction program generalizing here with
  | done _ =>
    cases h
    exact hreached
  | fail _ => cases h
  | perform operation next ih =>
    rw [run, start_outcome_bind] at h
    obtain ⟨⟨outcome, middle⟩, hreturned, hrest⟩ := Option.bind_eq_some_iff.1 h
    exact ih outcome hrest (hreached.operation hreturned)
  | inspect next ih =>
    rw [start_run_inspect] at h
    exact ih here h hreached.look
  | note data next ih =>
    rw [start_run_note] at h
    exact ih h hreached.note

end Program

namespace Engine

variable {engine after : Engine}

/-! ## At rest -/

/-- Nothing is under way in an engine: no event, no pump, and nothing that waits for an event or an
operation to end. -/
structure AtRest (engine : Engine) : Prop where
  depth : engine.depth = 0
  pumping : engine.pumping = false
  deferred : engine.deferred = []
  outbox : engine.forest.outbox = []

/-- What an operation restores: how deep the engine is in events, and whether it pumps. -/
structure Restores (engine after : Engine) : Prop where
  depth : after.depth = engine.depth
  pumping : after.pumping = engine.pumping

theorem Course.restores {allowed : Operation → Prop} {stage : Stage}
    (h : Course allowed stage engine after) : Restores engine after :=
  ⟨h.depth_eq, h.pumping_eq⟩

/-- An engine is at rest between operations, and its events are accounted for. -/
structure Settled (engine : Engine) : Prop where
  rest : engine.AtRest
  balanced : engine.Balanced

theorem Settled.course {allowed : Operation → Prop} {stage : Stage} (h : engine.Settled)
    (hcourse : Course allowed stage engine after) : after.Settled := by
  have hbalanced := hcourse.keeps balanced_stays h.balanced
  have hrestores := hcourse.restores
  have hdepth : after.depth = 0 := hrestores.depth.trans h.rest.depth
  have hpumping : after.pumping = false := hrestores.pumping.trans h.rest.pumping
  have houtbox := hcourse.keeps outbox_stays h.rest.outbox
  exact ⟨⟨hdepth, hpumping, hbalanced.flushed hdepth, houtbox⟩, hbalanced⟩

theorem settled_new (config : Config) (factory : Option Factory) : (new config factory).Settled :=
  ⟨⟨rfl, rfl, rfl, rfl⟩, balanced_new config factory⟩

/-! ## Pumps that come to the end -/

/-- A pump that has an outcome only if it neither fails nor stops at its limit with events left. -/
def pumpDry (invoke : Invoker) (limit : Nat) : EngineM Nat := ofStart fun engine =>
  ((pump invoke limit).start engine).filter fun
    | (.ok count, after) => count < limit || after.queue.isEmpty
    | (.error _, _) => false

/-- Settling that has an outcome only if the pump that it starts, if any, comes to the end. -/
def settleDry (invoke : Invoker) : EngineM Unit := do
  if (← get).forest.outbox.isEmpty then pure ()
  else
    modify deliver
    let engine ← get
    if engine.config.autoPump && engine.isIdle then
      discard (pumpDry invoke engine.config.maxEventsPerPump)

/-- Carries out an operation, with an outcome only if no event is processed directly and all pumps
of the operation come to the end. -/
def performDry (invoke : Invoker) : Operation → EngineM Answer
  | .createCard id => .card <$> createCard (settleDry invoke) id
  | .attach parent child intrinsic => do
    attach (settleDry invoke) parent child intrinsic
    return .done
  | .removeChild parent child force => .flag <$> removeChild (settleDry invoke) parent child force
  | .detach child force => .flag <$> detach (settleDry invoke) child force
  | .raise raised => do
    raise (settleDry invoke) raised
    return .done
  | .tickAll => do
    tickAll (settleDry invoke)
    return .done
  | .pump limit => .count <$> pumpDry invoke limit
  | .pumpAll => do
    .count <$> pumpDry invoke (← get).config.maxEventsPerPump
  | .process _ => never
  | operation => perform invoke operation

/-- An engine that would pump on its own account now. -/
structure Pumps (engine : Engine) : Prop where
  idle : engine.isIdle = true
  autoPump : engine.config.autoPump = true

/-- Such an engine has nothing left to pump. -/
structure Drained (engine : Engine) : Prop extends Pumps engine where
  queue : engine.queue = []

theorem Pumps.ofSame (h : engine.Pumps) (hconfig : after.config = engine.config)
    (hpumping : after.pumping = engine.pumping) (hdepth : after.depth = engine.depth) :
    after.Pumps := by
  obtain ⟨hidle, hautoPump⟩ := h
  unfold isIdle at hidle
  refine ⟨?_, ?_⟩
  · unfold isIdle
    rw [hpumping, hdepth]
    exact hidle
  · rw [hconfig]
    exact hautoPump

theorem Drained.ofSame (h : engine.Drained) (hschedule : SameSchedule engine after)
    (hstanding : SameStanding engine after) : after.Drained := by
  have hpumps := h.toPumps.ofSame hstanding.config hstanding.pumping hschedule.depth
  exact ⟨hpumps, hschedule.queue.trans h.queue⟩

end Engine

/-! ## Refinement, computation by computation -/

section

variable {condition : Engine → Prop} {strict plain : EngineM α}

theorem EngineM.Refines.pure (value : α) :
    Refines condition (Pure.pure value : EngineM α) (Pure.pure value) := by
  intro engine he result after h
  cases h
  exact ⟨rfl, he⟩

theorem EngineM.Refines.throw (error : Error) :
    Refines condition (throw error : EngineM α) (throw error) := by
  intro engine he result after h
  cases h
  exact ⟨rfl, he⟩

theorem EngineM.Refines.map (change : α → β) (h : Refines condition strict plain) :
    Refines condition (change <$> strict) (change <$> plain) := by
  intro engine he result after hstart
  rw [start_map] at hstart
  obtain ⟨⟨outcome, final⟩, hstrict, heq⟩ := Option.map_eq_some_iff.1 hstart
  cases heq
  obtain ⟨hplain, hafter⟩ := h engine he _ _ hstrict
  exact ⟨by rw [start_map, hplain]; rfl, hafter⟩

theorem EngineM.Refines.outcome (h : Refines condition strict plain) :
    Refines condition strict.outcome plain.outcome := by
  intro engine he result after hstart
  obtain ⟨⟨outcome, final⟩, hstrict, heq⟩ := Option.map_eq_some_iff.1 hstart
  cases heq
  obtain ⟨hplain, hafter⟩ := h engine he _ _ hstrict
  exact ⟨by rw [start_outcome, hplain]; rfl, hafter⟩

theorem EngineM.Refines.bind {next next' : α → EngineM β} (h : Refines condition strict plain)
    (hnext : ∀ value, Refines condition (next value) (next' value)) :
    Refines condition (strict >>= next) (plain >>= next') := by
  intro engine he result after hstart
  rw [start_bind] at hstart ⊢
  rcases hstrict : strict.start engine with _ | ⟨error | value, middle⟩
  · simp [hstrict] at hstart
  · -- An error of the first part is the error of the whole.
    obtain ⟨hplain, hmiddle⟩ := h engine he _ _ hstrict
    simp only [hstrict] at hstart
    cases hstart
    exact ⟨by rw [hplain], hmiddle⟩
  · obtain ⟨hplain, hmiddle⟩ := h engine he _ _ hstrict
    simp only [hstrict] at hstart
    rw [hplain]
    exact hnext value middle hmiddle result after hstart

theorem EngineM.Refines.forM {next next' : α → EngineM Unit} (values : List α)
    (h : ∀ value, Refines condition (next value) (next' value)) :
    Refines condition (values.forM next) (values.forM next') := by
  induction values with
  | nil => exact .pure ()
  | cons value rest ih =>
    unfold List.forM
    exact (h value).bind fun _ => ih

end

namespace Engine

/-- A condition that does not depend on the cards. -/
structure IgnoresCards (condition : Engine → Prop) : Prop where
  withForest {engine : Engine} (h : condition engine) (forest : Forest) :
    condition { engine with forest }
  addCard {engine : Engine} (h : condition engine) (card : Card) :
    condition (engine.addCard card)

theorem Drained.ignoresCards : IgnoresCards Drained where
  withForest h _ := ⟨⟨h.idle, h.autoPump⟩, h.queue⟩
  addCard {engine} h card :=
    h.ofSame (sameSchedule_addCard engine card) (sameStanding_addCard engine card)

section

variable {condition : Engine → Prop} {settle settle' : EngineM Unit}
  (hcards : IgnoresCards condition) (hsettle : Refines condition settle settle')

include hcards hsettle

theorem refines_attach (parent child : Handle) (intrinsic : Bool) :
    Refines condition (attach settle parent child intrinsic)
      (attach settle' parent child intrinsic) := by
  intro engine he result after h
  rw [start_attach] at h ⊢
  cases hattach : engine.forest.attach parent child intrinsic with
  | error error =>
    simp only [hattach] at h
    cases h
    exact ⟨rfl, he⟩
  | ok forest =>
    simp only [hattach] at h
    exact hsettle _ (hcards.withForest he forest) _ _ h

theorem refines_removeChild (parent child : Handle) (force : Bool) :
    Refines condition (removeChild settle parent child force)
      (removeChild settle' parent child force) := by
  intro engine he result after h
  rw [start_removeChild] at h ⊢
  cases hremove : engine.forest.remove? parent child force with
  | none =>
    simp only [hremove] at h
    exact hsettle.map _ engine he result after h
  | some forest =>
    simp only [hremove] at h
    exact hsettle.map _ _ (hcards.withForest he forest) result after h

theorem refines_detach (child : Handle) (force : Bool) :
    Refines condition (detach settle child force) (detach settle' child force) := by
  intro engine he result after h
  rw [start_detach] at h ⊢
  cases hdetach : engine.forest.detach? child force with
  | none =>
    simp only [hdetach] at h
    exact hsettle.map _ engine he result after h
  | some forest =>
    simp only [hdetach] at h
    exact hsettle.map _ _ (hcards.withForest he forest) result after h

theorem refines_raise (raised : Raised) :
    Refines condition (raise settle raised) (raise settle' raised) := by
  intro engine he result after h
  rw [start_raise] at h ⊢
  by_cases hknown : engine.forest.contains raised.source = true
  · rw [if_pos hknown] at h ⊢
    exact hsettle _ (hcards.withForest he _) _ _ h
  · rw [if_neg hknown] at h ⊢
    cases h
    exact ⟨rfl, he⟩

theorem refines_tickAll : Refines condition (tickAll settle) (tickAll settle') := by
  intro engine he result after h
  rw [start_tickAll] at h ⊢
  exact hsettle _ (hcards.withForest he _) _ _ h

theorem refines_assemble (levels : Nat) (id : String) :
    Refines condition (assemble settle levels id) (assemble settle' levels id) := by
  induction levels generalizing id with
  | zero => exact .throw _
  | succ levels ih =>
    intro engine he result after h
    rw [start_assemble_succ] at h ⊢
    cases hmade : engine.factory.bind fun factory =>
        (factory.make? id).map (factory.parts id, ·) with
    | none =>
      simp only [hmade] at h
      cases h
      exact ⟨rfl, he⟩
    | some made =>
      obtain ⟨parts, card⟩ := made
      simp only [hmade] at h
      refine Refines.map _ (.forM parts fun part => ?_) _ (hcards.addCard he card) result after h
      refine (ih part).bind fun found => ?_
      cases found with
      | none => exact .pure ()
      | some child => exact refines_attach hcards hsettle _ child true

end

section

variable {callbacks : Callbacks} {depth : Nat}

/-- A pump that comes to the end is a pump, and it leaves nothing in the queue. -/
theorem pumpDry_eq_some {engine after : Engine} {limit : Nat} {result : Except Error Nat}
    (he : engine.Pumps)
    (h : (pumpDry (invoker callbacks depth) limit).start engine = some (result, after)) :
    ∃ count, result = .ok count ∧
      (pump (invoker callbacks depth) limit).start engine = some (.ok count, after) ∧
        after.Drained := by
  obtain ⟨hpump, hdry⟩ := Option.filter_eq_some_iff.1 h
  have halike := alike_pump stays_true
    (.ofAll (follows_invoker callbacks.askOnly_true depth)) limit engine trivial
  have hcourse := halike.course hpump
  have hpumps := he.ofSame hcourse.config_eq hcourse.pumping_eq hcourse.depth_eq
  cases result with
  | error error => simp at hdry
  | ok count =>
    refine ⟨count, rfl, hpump, hpumps, ?_⟩
    -- A pump stops at its limit or at the end of the queue; at the limit, nothing may be left.
    rcases pump_eq_ok he.idle hpump with hcount | hqueue
    · simpa [hcount] using hdry
    · exact hqueue

theorem refines_pumpDry (limit : Nat) :
    Refines Drained (pumpDry (invoker callbacks depth) limit)
      (pump (invoker callbacks depth) limit) := by
  intro engine he result after h
  obtain ⟨count, rfl, hpump, hafter⟩ := pumpDry_eq_some he.toPumps h
  exact ⟨hpump, hafter⟩

theorem refines_settleDry :
    Refines Drained (settleDry (invoker callbacks depth)) (settle (invoker callbacks depth)) := by
  intro engine he result after h
  unfold settleDry at h
  rw [start_get_bind] at h
  rw [start_settle]
  by_cases hempty : engine.forest.outbox.isEmpty = true
  · rw [if_pos hempty] at h ⊢
    cases h
    exact ⟨rfl, he⟩
  · -- What is handed out waits in the queue, and the pump takes it from there.
    rw [if_neg hempty, start_modify_bind, start_get_bind] at h
    have hpumps : engine.deliver.Pumps :=
      he.toPumps.ofSame (config_deliver engine) (pumping_deliver engine) (depth_deliver engine)
    have hauto : (engine.deliver.config.autoPump && engine.deliver.isIdle) = true := by
      rw [hpumps.autoPump, hpumps.idle]
      rfl
    rw [if_pos hauto] at h
    rw [if_neg hempty, if_pos hauto, start_pumpQuietly, start_pumpAll]
    obtain ⟨⟨outcome, final⟩, hdry, heq⟩ := Option.map_eq_some_iff.1 ((start_map ..).symm.trans h)
    cases heq
    obtain ⟨count, rfl, hpump, hafter⟩ := pumpDry_eq_some hpumps hdry
    exact ⟨by rw [hpump]; rfl, hafter⟩

/-- An operation that changes nothing but cards, rules and listeners leaves the queue alone. -/
theorem refines_self {action : EngineM α}
    (h : ∀ engine result after, action.start engine = some (result, after) →
      SameSchedule engine after ∧ SameStanding engine after) :
    Refines Drained action action := by
  intro engine he result after hstart
  obtain ⟨hschedule, hstanding⟩ := h engine result after hstart
  exact ⟨hstart, he.ofSame hschedule hstanding⟩

theorem refines_addRule (rule : Rule) : Refines Drained (addRule rule) (addRule rule) := by
  refine refines_self fun engine result after h => ?_
  rw [start_addRule] at h
  cases hrule : engine.registerRule rule with
  | error error =>
    simp only [hrule] at h
    cases h
    exact ⟨.refl engine, rfl, rfl, id⟩
  | ok changed =>
    simp only [hrule] at h
    cases h
    obtain ⟨-, -, rfl⟩ := registerRule_eq_ok hrule
    exact ⟨⟨rfl, rfl, rfl, rfl, rfl⟩, rfl, rfl, id⟩

/-- Operations whose pumps come to the end leave nothing in the queue. -/
theorem refines_performDry (operation : Operation) :
    Refines Drained (performDry (invoker callbacks depth) operation)
      (perform (invoker callbacks depth) operation) := by
  have hcards := Drained.ignoresCards
  have hsettle := @refines_settleDry callbacks depth
  cases operation with
  | addCard card =>
    refine refines_self fun engine result after h => ?_
    cases h
    exact ⟨sameSchedule_addCard engine card, sameStanding_addCard engine card⟩
  | createCard id => exact .map _ (refines_assemble hcards hsettle _ id)
  | setFactory factory =>
    refine refines_self fun engine result after h => ?_
    cases h
    exact ⟨⟨rfl, rfl, rfl, rfl, rfl⟩, rfl, rfl, id⟩
  | registerCard handle =>
    refine refines_self fun engine result after h => ?_
    replace h := (start_registerCard engine (invoker callbacks depth) handle).symm.trans h
    split at h
    · cases h
      exact ⟨sameSchedule_register engine handle, sameStanding_register engine handle⟩
    · cases h
      exact ⟨.refl engine, rfl, rfl, id⟩
  | unregisterCard handle =>
    refine refines_self fun engine result after h => ?_
    cases h
    exact ⟨sameSchedule_unregister engine handle, sameStanding_unregister engine handle⟩
  | registerRule rule => exact .bind (refines_addRule rule) fun _ => .pure _
  | registerRules rules =>
    exact .bind (.forM rules refines_addRule) fun _ => .pure _
  | subscribe handle note =>
    refine refines_self fun engine result after h => ?_
    replace h := (start_subscribe engine (invoker callbacks depth) handle note).symm.trans h
    split at h
    · cases h
      exact ⟨⟨rfl, rfl, rfl, rfl, rfl⟩, rfl, rfl, id⟩
    · cases h
      exact ⟨.refl engine, rfl, rfl, id⟩
  | unsubscribe handle listener =>
    refine refines_self fun engine result after h => ?_
    cases h
    exact ⟨sameSchedule_unsubscribe engine handle listener,
      sameStanding_unsubscribe engine handle listener⟩
  | attach parent child intrinsic =>
    exact .bind (refines_attach hcards hsettle parent child intrinsic) fun _ => .pure _
  | removeChild parent child force =>
    exact .map _ (refines_removeChild hcards hsettle parent child force)
  | detach child force => exact .map _ (refines_detach hcards hsettle child force)
  | editCard handle edit =>
    refine refines_self fun engine result after h => ?_
    cases h
    exact ⟨⟨rfl, rfl, rfl, rfl, rfl⟩, rfl, rfl, id⟩
  | raise raised => exact .bind (refines_raise hcards hsettle raised) fun _ => .pure _
  | tickAll => exact .bind (refines_tickAll hcards hsettle) fun _ => .pure _
  | pump limit => exact .map _ (refines_pumpDry limit)
  | pumpAll =>
    intro engine he result after h
    rw [performDry, start_get_bind] at h
    have hpump := @refines_pumpDry callbacks depth engine.config.maxEventsPerPump
    have hmap := hpump.map .count engine he result after h
    rw [perform, start_map, start_pumpAll, ← start_map]
    exact hmap
  | process raised =>
    intro engine he result after h
    cases h
  | takePumpError =>
    refine refines_self fun engine result after h => ?_
    cases h
    exact ⟨⟨rfl, rfl, rfl, rfl, rfl⟩, rfl, rfl, id⟩

end

/-! ## The law -/

theorem drained_new {config : Config} (factory : Option Factory) (h : config.autoPump = true) :
    (new config factory).Drained := ⟨⟨rfl, h⟩, rfl⟩

/-- Every operation restores the scheduler, also one that fails. Wherever a program gets to, the
engine is at rest. An operation at any depth, in a callback too, leaves the engine as deep in events
as it was, pumping if it was, and with an empty outbox if it was empty, which it is whenever a
program or a callback sees the engine. And if the engine pumps on its own account, the queue is
empty as well for as long as no event is processed directly and every pump comes to the end. -/
theorem scheduler_is_restored (callbacks : Callbacks) (depth : Nat) (program : Program α)
    (config : Config) (factory : Option Factory) :
    (∀ rest engine,
      Program.Reaches (perform (invoker callbacks depth)) program (new config factory) rest engine →
        engine.AtRest) ∧
      (∀ level operation engine outcome after,
        (perform (invoker callbacks level) operation).start engine = some (outcome, after) →
          Restores engine after ∧
            (engine.forest.outbox = [] → after.forest.outbox = [])) ∧
      Upholds (·.forest.outbox = []) callbacks depth program (new config factory) ∧
      (config.autoPump = true → ∀ rest engine,
        Program.Reaches (performDry (invoker callbacks depth)) program (new config factory) rest
            engine →
          Program.Reaches (perform (invoker callbacks depth)) program (new config factory) rest
              engine ∧ engine.queue = []) := by
  refine ⟨fun rest engine hreaches => ?_, fun level operation engine outcome after h => ?_, ?_,
    fun hauto rest engine hreaches => ?_⟩
  · have hself : ∀ operation, Refines Settled (perform (invoker callbacks depth) operation)
        (perform (invoker callbacks depth) operation) := by
      intro operation here hhere outcome after h
      exact ⟨h, hhere.course (course_of_perform callbacks.askOnly_true trivial h)⟩
    have hnote : ∀ here data, Settled here → (here.record (.noted data)).Settled := by
      intro here data hhere
      have hchange : Change (fun _ => True) here (here.record (.noted data)) := .note data
      have hcourse : Course (fun _ => True) .acting here (here.record (.noted data)) :=
        .change hchange
      exact hhere.course hcourse
    exact (hreaches.refines hself hnote (settled_new config factory)).2.rest
  · have hcourse := course_of_perform callbacks.askOnly_true trivial h
    exact ⟨hcourse.restores, hcourse.keeps outbox_stays⟩
  · exact upholds_of_stays outbox_stays (fun _ h => h) callbacks.askOnly_true depth
      program.asksOnly_true rfl
  · have hnote : ∀ here data, Drained here → (here.record (.noted data)).Drained :=
      fun _ _ hhere => ⟨⟨hhere.idle, hhere.autoPump⟩, hhere.queue⟩
    obtain ⟨hplain, hdrained⟩ :=
      hreaches.refines refines_performDry hnote (drained_new factory hauto)
    exact ⟨hplain, hdrained.queue⟩

/-- Lighting the bench ends at rest, with the flame moved and nothing left in the queue. -/
theorem lighting_ends_at_rest :
    ∃ after,
      Program.Reaches (performDry (invoker moving 1)) lighting (new {} torches) (.done ()) after ∧
        after.forest.children ⟨0⟩ = [⟨1⟩, ⟨2⟩] ∧ after.AtRest ∧ after.queue = [] := by
  have hchildren : ((lighting.run (performDry (invoker moving 1))).start (new {} torches)).map
      (fun (result, after) => (result.isOk, after.forest.children ⟨0⟩)) =
        some (true, [⟨1⟩, ⟨2⟩]) := by
    decide +kernel
  obtain ⟨⟨result, after⟩, hrun, hends⟩ := Option.map_eq_some_iff.1 hchildren
  obtain ⟨hok, hafter⟩ : result.isOk = true ∧ after.forest.children ⟨0⟩ = [⟨1⟩, ⟨2⟩] := by
    simpa using hends
  cases result with
  | error error => simp [Except.isOk, Except.toBool] at hok
  | ok value =>
    obtain ⟨hrest, -, -, hdry⟩ := scheduler_is_restored moving 1 lighting {} (some torches)
    have hreaches := Program.reaches_of_run hrun .start
    obtain ⟨hplain, hqueue⟩ := hdry rfl (.done value) after hreaches
    exact ⟨after, hreaches, hafter, hrest (.done value) after hplain, hqueue⟩

end Engine

end CardRules
