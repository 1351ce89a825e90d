import CardRules.Proofs.Hushing

/-!
Listeners from outside are passive. Whatever is done to an engine with such listeners can be done to
the hushed one, without the subscriptions, and to the same effect; but an operation whose events
nobody hears except for listeners from outside makes an engine pump on its own account, and the
hushed engine does not.
-/

namespace CardRules

open EngineM

/-- Whether an operation is about the subscription of a listener from outside. -/
def Operation.subscribes : Operation → Bool
  | .subscribe .. | .unsubscribe .. => true
  | _ => false

theorem Operation.settles_of_subscribes {operation : Operation}
    (h : operation.subscribes = true) : operation.settles = false := by
  cases operation with
  | subscribe | unsubscribe => rfl
  | _ => cases h

/-- An operation that does not depend on listeners from outside: it is none of their subscriptions,
the rules that it registers are deaf, and the cards that it brings in are fresh. -/
structure Operation.IsDeaf (operation : Operation) : Prop where
  common : operation.subscribes = false
  rules : ∀ rule ∈ operation.rules, rule.IsDeaf
  fresh : operation.BringsFresh

/-- The second program is the first one without its subscriptions of listeners from outside. It sees
hushed engines instead. Where the first one goes on in its own way if there is no such card to
subscribe to, the second one looks whether there is. -/
inductive Program.Mutes {α : Type} : Program α → Program α → Prop
  | done (value : α) : Mutes (.done value) (.done value)
  | fail (error : Error) : Mutes (.fail error) (.fail error)
  | perform {operation : Operation} {next next' : Except Error Answer → Program α}
    (deaf : operation.IsDeaf) (same : ∀ outcome, Mutes (next outcome) (next' outcome)) :
    Mutes (.perform operation next) (.perform operation next')
  | inspect {next next' : Engine → Program α}
    (same : ∀ engine, Mutes (next engine) (next' engine.hushed)) :
    Mutes (.inspect next) (.inspect next')
  | note (data : Data) {next next' : Program α} (same : Mutes next next') :
    Mutes (.note data next) (.note data next')
  | leaveOut {operation : Operation} {next : Except Error Answer → Program α}
    {program : Program α} (subscribes : operation.subscribes = true)
    (same : ∀ outcome, Mutes (next outcome) program) : Mutes (.perform operation next) program
  | check {handle : Handle} {note : Data} {next : Except Error Answer → Program α}
    {known unknown : Program α} (same : ∀ listener, Mutes (next (.ok (.listener listener))) known)
    (refused : Mutes (next (.error (.unknownCard handle))) unknown) :
    Mutes (.perform (.subscribe handle note) next)
      (.inspect fun engine => if engine.forest.contains handle then known else unknown)

namespace Engine

variable {depth : Nat} {engine other : Engine} {left right : Invoker}

/-! ## Settling -/

/-- Settling that is not followed by a pump unless the scheduler hears one of the events. -/
def settleHeard (invoke : Invoker) : EngineM Unit := do
  let engine ← get
  if engine.forest.outbox.any (engine.forest.scheduled ·.source) then settle invoke
  else modify deliver

/-- An engine whose next pump on its own account takes events, although only listeners from outside
hear what was raised. -/
def stirred (engine : Engine) : Bool :=
  !engine.forest.outbox.isEmpty && !engine.forest.outbox.any (engine.forest.scheduled ·.source) &&
    engine.config.autoPump && engine.isIdle && !engine.queue.isEmpty &&
      engine.config.maxEventsPerPump != 0

/-- Settling that has no outcome where listeners from outside would stir a pump. -/
def settleUnstirred (invoke : Invoker) : EngineM Unit := do
  let engine ← get
  if engine.stirred then never else settle invoke

theorem start_settleHeard_of_scheduled (invoke : Invoker)
    (h : engine.forest.outbox.any (engine.forest.scheduled ·.source) = true) :
    (settleHeard invoke).start engine = (settle invoke).start engine := by
  unfold settleHeard
  rw [start_get_bind, if_pos h]

theorem start_settleHeard_of_not_scheduled (invoke : Invoker)
    (h : engine.forest.outbox.any (engine.forest.scheduled ·.source) = false) :
    (settleHeard invoke).start engine = some (.ok (), engine.deliver) := by
  unfold settleHeard
  rw [start_get_bind, if_neg (Bool.eq_false_iff.1 h)]
  rfl

theorem isEmpty_outbox_hushed (engine : Engine) :
    engine.hushed.forest.outbox.isEmpty =
      !engine.forest.outbox.any (engine.forest.scheduled ·.source) := by
  show (engine.forest.outbox.filter _).isEmpty = _
  rw [Bool.eq_iff_iff, List.isEmpty_iff, List.filter_eq_nil_iff]
  simp

/-- The hushed engine settles as if events that only listeners from outside hear were none. -/
theorem settlesHushed_settleHeard (hinvoke : CallbacksMirror (HushedAt (depth + 1)) left right) :
    SettlesHushed depth (settleHeard left) (settle right) := by
  intro engine hdeaf hdepth
  have hdelivered : HushedAt depth engine.deliver engine.hushed.deliver := .ofDeliver hdeaf hdepth
  have hempty := isEmpty_outbox_hushed engine
  cases hheard : engine.forest.outbox.any (engine.forest.scheduled ·.source) with
  | false =>
    -- Nothing is left for the hushed engine to deliver.
    rw [hheard, Bool.not_false] at hempty
    rw [deliver_of_isEmpty hempty] at hdelivered
    rw [start_settleHeard_of_not_scheduled left hheard, start_settle, if_pos hempty]
    exact .ended (.ok ()) hdelivered
  | true =>
    rw [hheard, Bool.not_true] at hempty
    have hloud : engine.forest.outbox.isEmpty = false := by
      obtain ⟨raised, hmem, -⟩ := List.any_eq_true.1 hheard
      rw [List.isEmpty_eq_false_iff]
      exact List.ne_nil_of_mem hmem
    have hkept (engine other : Engine) (pumpError : Option Error)
        (h : HushedAt depth engine other) :
        HushedAt depth { engine with pumpError } { other with pumpError } := by
      refine h.step ?_ rfl rfl h.depth id
      rw [← h.hushed]
      rfl
    have hauto : engine.hushed.deliver.config.autoPump = engine.deliver.config.autoPump := by
      rw [config_deliver, config_deliver]
      rfl
    rw [start_settleHeard_of_scheduled left hheard, start_settle, start_settle, hloud, hempty, hauto,
      (synchrony_hushedAt depth).isIdle hdelivered]
    simp only [Bool.false_eq_true, if_false]
    split
    · exact (synchrony_hushedAt depth).pumpQuietly hinvoke hkept _ _ hdelivered
    · exact .ended (.ok ()) hdelivered

/-- While an event is processed there are no pumps at all. -/
theorem settlesHushed_settle (hdepth : 0 < depth) :
    SettlesHushed depth (settle left) (settle right) := by
  intro engine hdeaf hsame
  have hdelivered : HushedAt depth engine.deliver engine.hushed.deliver := .ofDeliver hdeaf hsame
  have hhushed : engine.hushed.depth = engine.depth := rfl
  rw [start_settle_of_depth_pos left (hsame ▸ hdepth),
    start_settle_of_depth_pos right (by rwa [hhushed, hsame])]
  exact .ended (.ok ()) hdelivered

/-- Events that only listeners from outside hear do not come into the queue. -/
theorem queue_deliver_of_not_scheduled
    (h : engine.forest.outbox.any (engine.forest.scheduled ·.source) = false) :
    engine.deliver.queue = engine.queue := by
  have hempty := isEmpty_outbox_hushed engine
  rw [h, Bool.not_false] at hempty
  have hhushed := hushed_deliver engine
  rw [deliver_of_isEmpty hempty] at hhushed
  have hqueue : engine.deliver.hushed.queue = engine.hushed.queue := by rw [hhushed]
  exact hqueue

/-- Where nothing stirs a pump, settling is as if what only listeners from outside hear were no
event. -/
theorem start_settle_of_not_stirred (invoke : Invoker) (h : engine.stirred = false) :
    (settle invoke).start engine = (settleHeard invoke).start engine := by
  cases hheard : engine.forest.outbox.any (engine.forest.scheduled ·.source) with
  | true => rw [start_settleHeard_of_scheduled invoke hheard]
  | false =>
    rw [start_settleHeard_of_not_scheduled invoke hheard, start_settle]
    by_cases hempty : engine.forest.outbox.isEmpty = true
    · rw [if_pos hempty, deliver_of_isEmpty hempty]
    · rw [if_neg hempty]
      split
      next hpumps =>
        rw [config_deliver, isIdle_deliver, Bool.and_eq_true] at hpumps
        have hidle : engine.deliver.isIdle = true := (isIdle_deliver engine).trans hpumps.2
        -- The pump that follows finds nothing in the queue, or may take nothing.
        have hnothing : (pumpAll invoke).start engine.deliver = some (.ok 0, engine.deliver) := by
          rw [start_pumpAll, config_deliver]
          by_cases hlimit : engine.config.maxEventsPerPump = 0
          · rw [hlimit, start_pump_zero invoke hidle]
          · have hqueue : engine.queue = [] := by
              simpa [stirred, hempty, hheard, hpumps.1, hpumps.2, hlimit] using h
            rw [start_pump_of_queue_eq_nil invoke hidle]
            rw [queue_deliver_of_not_scheduled hheard, hqueue]
        rw [start_pumpQuietly, hnothing]
        rfl
      next => rfl

/-! ## Operations -/

theorem mirrors_addRule_hushed {rule : Rule} (hdeaf : rule.IsDeaf) :
    Mirrors (HushedAt depth) (addRule rule) (addRule rule) := by
  refine mirrors_addRule (fun engine other h => ?_) fun engine other h _ => ?_
  · rw [← h.hushed]
    rfl
  · refine ⟨?_, ⟨fun added hmem => ?_, h.deaf.fresh⟩, h.depth, h.outbox⟩
    · rw [← h.hushed]
      rfl
    · rcases List.mem_append.1 hmem with hold | hnew
      · exact h.deaf.rules added hold
      · exact List.mem_singleton.1 hnew ▸ hdeaf

theorem HushedAt.forest_eq (h : HushedAt depth engine other) :
    other.forest = engine.forest.hushed := by
  rw [← h.hushed]
  rfl

theorem HushedAt.isRegistered_eq (h : HushedAt depth engine other) (handle : Handle) :
    other.isRegistered handle = engine.isRegistered handle := by
  rw [← h.hushed]
  rfl

theorem HushedAt.register (h : HushedAt depth engine other) (handle : Handle) :
    HushedAt depth (engine.register handle) (other.register handle) := by
  refine h.step ?_ (rules_register _ _) (factory_register _ _)
    ((sameSchedule_register engine handle).depth.trans h.depth)
    (sameStanding_register engine handle).outbox
  rw [hushed_register engine h.outbox, h.hushed]

theorem HushedAt.unregister (h : HushedAt depth engine other) (handle : Handle) :
    HushedAt depth (engine.unregister handle) (other.unregister handle) := by
  refine h.step ?_ ?_ ?_ ((sameSchedule_unregister engine handle).depth.trans h.depth)
    (sameStanding_unregister engine handle).outbox
  · rw [hushed_unregister engine h.outbox, h.hushed]
  · unfold Engine.unregister
    split <;> rfl
  · unfold Engine.unregister
    split <;> rfl

theorem HushedAt.editCard (h : HushedAt depth engine other) (handle : Handle) (edit : CardEdit) :
    HushedAt depth (engine.editCard handle edit) (other.editCard handle edit) := by
  refine h.step ?_ rfl rfl h.depth id
  rw [hushed_editCard, h.hushed]

theorem HushedAt.withoutPumpError (h : HushedAt depth engine other) :
    HushedAt depth { engine with pumpError := none } { other with pumpError := none } := by
  refine h.step ?_ rfl rfl h.depth id
  rw [← h.hushed]
  rfl

/-- A deaf operation that neither settles nor has events processed does the same to the hushed
engine. -/
theorem mirrors_perform_hushed {operation : Operation} (hdeaf : operation.IsDeaf)
    (hsettles : operation.settles = false) (hserves : operation.serves = false) :
    Mirrors (HushedAt depth) (perform left operation) (perform right operation) := by
  intro engine other h
  cases operation with
  | addCard card =>
    have hafter := h.addCard hdeaf.fresh
    simp only [perform, start_get_bind, start_modify_bind, h.forest_eq, Forest.next_hushed]
    exact .ended _ hafter
  | setFactory factory =>
    refine .ended (.ok Answer.done) ⟨?_, ⟨h.deaf.rules, ?_⟩, h.depth, h.outbox⟩
    · rw [← h.hushed]
      rfl
    · rintro _ ⟨⟩
      exact hdeaf.fresh
  | registerCard handle =>
    rw [start_registerCard, start_registerCard, h.forest_eq, Forest.contains_hushed,
      h.isRegistered_eq]
    split
    · exact .ended _ (h.register handle)
    · exact .ended _ h
  | unregisterCard handle =>
    simp only [perform, start_get_bind, start_set_bind, h.isRegistered_eq]
    exact .ended _ (h.unregister handle)
  | registerRule rule =>
    have hrule := hdeaf.rules rule List.mem_cons_self
    exact Mirrors.bind (mirrors_addRule_hushed hrule) (fun _ => .pure _) _ _ h
  | registerRules rules =>
    exact Mirrors.bind (.forM fun rule hmem => mirrors_addRule_hushed (hdeaf.rules rule hmem))
      (fun _ => .pure _) _ _ h
  | editCard handle edit =>
    have happlies : other.editApplies handle edit = engine.editApplies handle edit := by
      rw [← h.hushed]
      exact editApplies_hushed engine handle edit
    simp only [perform, start_get_bind, start_set_bind, happlies]
    exact .ended _ (h.editCard handle edit)
  | takePumpError =>
    have herror : other.pumpError = engine.pumpError := by
      rw [← h.hushed]
      rfl
    simp only [perform, start_get_bind, start_set_bind, herror]
    exact .ended _ h.withoutPumpError
  | subscribe | unsubscribe => cases hdeaf.common
  | createCard | attach | removeChild | detach | raise | tickAll => cases hsettles
  | pump | pumpAll | process => cases hserves

/-- So does any deaf operation. -/
theorem mirrors_performSettling_hushed {settle settle' : EngineM Unit} {operation : Operation}
    (hdeaf : operation.IsDeaf) (hsettle : SettlesHushed depth settle settle')
    (hinvoke : CallbacksMirror (HushedAt (depth + 1)) left right) :
    Mirrors (HushedAt depth) (performSettling settle left operation)
      (performSettling settle' right operation) := by
  cases hsettles : operation.settles with
  | true => exact hsettle.moves.performSettling (accord_hushedAt depth) left right hsettles
  | false =>
    rw [performSettling_of_not_settles settle left hsettles,
      performSettling_of_not_settles settle' right hsettles]
    cases hserves : operation.serves with
    | true => exact (synchrony_hushedAt depth).perform hinvoke hserves
    | false => exact mirrors_perform_hushed hdeaf hsettles hserves

theorem HushedAt.subscribe (h : HushedAt depth engine other) (handle : Handle) (note : Data) :
    HushedAt depth (engine.subscribe handle note) other := by
  refine h.step ?_ rfl rfl h.depth id
  rw [hushed_subscribe engine h.outbox, h.hushed]

theorem HushedAt.unsubscribe (h : HushedAt depth engine other) (handle : Handle)
    (listener : ListenerId) : HushedAt depth (engine.unsubscribe handle listener) other := by
  refine h.step ?_ ?_ ?_ ((sameSchedule_unsubscribe engine handle listener).depth.trans h.depth)
    (sameStanding_unsubscribe engine handle listener).outbox
  · rw [hushed_unsubscribe engine h.outbox, h.hushed]
  · unfold Engine.unsubscribe
    split <;> rfl
  · unfold Engine.unsubscribe
    split <;> rfl

/-- A subscription leaves no trace in the hushed engine, whether it is accepted or not. -/
theorem HushedAt.of_subscribes (h : HushedAt depth engine other) {operation : Operation}
    (hsubscribes : operation.subscribes = true) (invoke : Invoker) :
    ∃ outcome after, (perform invoke operation).start engine = some (outcome, after) ∧
      HushedAt depth after other := by
  cases operation with
  | subscribe handle note =>
    rw [start_subscribe]
    split
    · exact ⟨_, _, rfl, h.subscribe handle note⟩
    · exact ⟨_, _, rfl, h⟩
  | unsubscribe handle listener => exact ⟨_, _, rfl, h.unsubscribe handle listener⟩
  | _ => cases hsubscribes

/-! ## Programs -/

/-- A program without the subscriptions of another comes to the same end. -/
theorem mirrors_run_of_mutes {α : Type} {program program' : Program α} (hmutes : program.Mutes program')
    (hoperation : ∀ operation : Operation, operation.IsDeaf →
      Mirrors (HushedAt depth) (perform left operation) (perform right operation)) :
    Mirrors (HushedAt depth) (program.run (perform left)) (program'.run (perform right)) := by
  induction hmutes with
  | done value => exact .pure value
  | fail error => exact .throw error
  | perform hdeaf _ ih =>
    refine .bind (fun engine other h => ?_) ih
    exact (hoperation _ hdeaf engine other h).outcome
  | inspect _ ih =>
    intro engine other h
    rw [Program.start_run_inspect, Program.start_run_inspect, ← h.hushed]
    exact ih engine _ _ (h.hushed ▸ h)
  | note data _ ih =>
    intro engine other h
    rw [Program.start_run_note, Program.start_run_note]
    refine ih _ _ (h.step ?_ rfl rfl h.depth id)
    rw [hushed_record engine rfl, h.hushed]
  | leaveOut hsubscribes _ ih =>
    intro engine other h
    obtain ⟨outcome, after, hstart, hafter⟩ := h.of_subscribes hsubscribes left
    rw [Program.run, start_outcome_bind, hstart]
    exact ih outcome after other hafter
  | @check handle note next known unknown _ _ ihknown ihunknown =>
    intro engine other h
    have hcontains : other.forest.contains handle = engine.forest.contains handle := by
      rw [← h.hushed]
      exact engine.forest.contains_hushed handle
    rw [Program.run, start_outcome_bind, start_subscribe, Program.start_run_inspect, hcontains]
    split
    · exact ihknown _ _ _ (h.subscribe handle note)
    · exact ihunknown _ _ h

/-- Callbacks without the subscriptions of others mirror these, however deep they go. -/
theorem callbacksMirror_invoker {callbacks callbacks' : Callbacks}
    (hmutes : ∀ name context, (callbacks name context).Mutes (callbacks' name context))
    (levels depth : Nat) :
    CallbacksMirror (HushedAt (depth + 1)) (invoker callbacks levels)
      (invoker callbacks' levels) := by
  induction levels generalizing depth with
  | zero => exact fun _ _ _ _ _ _ _ _ _ _ _ => .never
  | succ levels ih =>
    intro _ _ _ _ _ name _ context
    refine mirrors_run_of_mutes (hmutes name context) fun operation hdeaf => ?_
    rw [← performSettling_settle, ← performSettling_settle]
    exact mirrors_performSettling_hushed hdeaf (settlesHushed_settle (Nat.succ_pos depth))
      (ih (depth + 1))

/-! ## Sequences of operations -/

/-- The first of the operations comes first in the transcript, unless it is a subscription. -/
theorem filter_transcript_cons (carryOut : Operation → EngineM Answer) (operation : Operation)
    (rest : List Operation) :
    (·.filter (!·.1.subscribes)) <$> transcript carryOut (operation :: rest) =
      (carryOut operation).outcome >>= fun outcome =>
        (if operation.subscribes then id else ((operation, outcome) :: ·)) <$>
          (·.filter (!·.1.subscribes)) <$> transcript carryOut rest := by
  rw [transcript_cons]
  cases hsubscribes : operation.subscribes <;> simp [hsubscribes]

/-- Operations have the same outcomes without the subscriptions among them. -/
theorem mirrors_transcript_filter {carryOut carryOut' : Operation → EngineM Answer}
    {operations : List Operation}
    (hcommon : ∀ operation ∈ operations, operation.subscribes = false →
      Mirrors (HushedAt depth) (carryOut operation) (carryOut' operation))
    (hsubscribes : ∀ operation ∈ operations, operation.subscribes = true →
      ∀ engine other, HushedAt depth engine other → ∃ outcome after,
        (carryOut operation).start engine = some (outcome, after) ∧ HushedAt depth after other) :
    Mirrors (HushedAt depth)
      ((·.filter (!·.1.subscribes)) <$> transcript carryOut operations)
      (transcript carryOut' (operations.filter (!·.subscribes))) := by
  induction operations with
  | nil => exact .map _ (.pure [])
  | cons operation rest ih =>
    replace ih := ih (fun other hmem => hcommon other (List.mem_cons_of_mem _ hmem))
      fun other hmem => hsubscribes other (List.mem_cons_of_mem _ hmem)
    rw [filter_transcript_cons]
    cases hsubscribe : operation.subscribes with
    | true =>
      intro engine other h
      obtain ⟨outcome, after, hstart, hafter⟩ :=
        hsubscribes operation List.mem_cons_self hsubscribe engine other h
      rw [List.filter_cons_of_neg (by simp [hsubscribe]), start_outcome_bind, hstart]
      simp only [Option.bind_some, ↓reduceIte, id_map]
      exact ih after other hafter
    | false =>
      rw [List.filter_cons_of_pos (by simp [hsubscribe]), transcript_cons]
      refine .bind (fun engine other h => ?_) fun outcome => .map _ ih
      exact (hcommon operation List.mem_cons_self hsubscribe engine other h).outcome

/-! ## Where nothing is stirred -/

section

variable {condition : Engine → Prop}

theorem refines_performSettling {settle settle' : EngineM Unit} (hcards : IgnoresCards condition)
    (hsettle : Refines condition settle settle') (invoke : Invoker) {operation : Operation}
    (hsettles : operation.settles = true) :
    Refines condition (performSettling settle invoke operation)
      (performSettling settle' invoke operation) := by
  cases operation with
  | createCard id => exact .map _ (refines_assemble hcards hsettle _ id)
  | attach parent child intrinsic =>
    exact .bind (refines_attach hcards hsettle parent child intrinsic) fun _ => .pure _
  | removeChild parent child force =>
    exact .map _ (refines_removeChild hcards hsettle parent child force)
  | detach child force => exact .map _ (refines_detach hcards hsettle child force)
  | raise raised => exact .bind (refines_raise hcards hsettle raised) fun _ => .pure _
  | tickAll => exact .bind (refines_tickAll hcards hsettle) fun _ => .pure _
  | _ => cases hsettles

theorem refines_transcript {carryOut carryOut' : Operation → EngineM Answer}
    (h : ∀ operation, Refines condition (carryOut operation) (carryOut' operation))
    (operations : List Operation) :
    Refines condition (transcript carryOut operations) (transcript carryOut' operations) := by
  induction operations with
  | nil => exact .pure []
  | cons operation rest ih =>
    rw [transcript_cons, transcript_cons]
    exact .bind (h operation).outcome fun _ => .map _ ih

end

/-- Where nothing stirs a pump, one may as well settle as usual, or only where the scheduler hears. -/
theorem refines_transcript_settleUnstirred (invoke : Invoker) {settle' : EngineM Unit}
    (hsettle : ∀ engine : Engine, engine.stirred = false →
      (settle invoke).start engine = settle'.start engine) (operations : List Operation) :
    Refines (fun _ => True) (transcript (performSettling (settleUnstirred invoke) invoke) operations)
      (transcript (performSettling settle' invoke) operations) := by
  have hrefines : Refines (fun _ => True) (settleUnstirred invoke) settle' := by
    intro engine _ result after h
    unfold settleUnstirred at h
    rw [start_get_bind] at h
    split at h
    next => cases h
    next hstirred => exact ⟨(hsettle engine (Bool.eq_false_iff.2 hstirred)).symm.trans h, trivial⟩
  refine refines_transcript (fun operation => ?_) operations
  cases hsettles : operation.settles with
  | true =>
    exact refines_performSettling ⟨fun _ _ => trivial, fun _ _ => trivial⟩ hrefines invoke hsettles
  | false =>
    rw [performSettling_of_not_settles _ invoke hsettles,
      performSettling_of_not_settles _ invoke hsettles]
    exact fun _ _ _ _ h => ⟨h, trivial⟩

theorem hushedAt_new (config : Config) {factory : Option Factory}
    (hfactory : ∀ made, factory = some made → made.MakesFresh) :
    HushedAt 0 (new config factory) (new config factory) :=
  ⟨by simp [hushed, new], ⟨fun _ hmem => absurd hmem List.not_mem_nil, hfactory⟩,
    rfl, rfl⟩

/-- Listeners from outside only observe. Let operations be carried out one after the other, some of
them subscriptions, and let no operation stir a pump because of events that only listeners from
outside hear. Then the others have the same outcomes without these subscriptions, at the top and in
callbacks, and bring the engine to the same state but for the listeners and what they heard. -/
theorem listeners_only_observe {callbacks callbacks' : Callbacks} (levels : Nat)
    {config : Config} {factory : Option Factory} {operations : List Operation}
    (hfactory : ∀ made, factory = some made → made.MakesFresh)
    (hoperations : ∀ operation ∈ operations, operation.subscribes = false → operation.IsDeaf)
    (hmutes : ∀ name context, (callbacks name context).Mutes (callbacks' name context))
    {outcomes : List (Operation × Except Error Answer)} {after : Engine}
    (hunstirred : (transcript (performSettling (settleUnstirred (invoker callbacks levels))
      (invoker callbacks levels)) operations).start (new config factory) =
        some (.ok outcomes, after)) :
    (transcript (perform (invoker callbacks levels)) operations).start (new config factory) =
        some (.ok outcomes, after) ∧
      (transcript (perform (invoker callbacks' levels))
        (operations.filter (!·.subscribes))).start (new config factory) =
          some (.ok (outcomes.filter (!·.1.subscribes)), after.hushed) := by
  have hplain := (refines_transcript_settleUnstirred (invoker callbacks levels) (fun _ _ => rfl)
    operations _ trivial _ _ hunstirred).1
  have hheard := (refines_transcript_settleUnstirred (invoker callbacks levels)
    (fun _ => start_settle_of_not_stirred _) operations _ trivial _ _ hunstirred).1
  rw [funext (performSettling_settle _)] at hplain
  refine ⟨hplain, ?_⟩
  have hinvoke := callbacksMirror_invoker hmutes levels 0
  have hmirrors : Mirrors (HushedAt 0)
      ((·.filter (!·.1.subscribes)) <$> transcript (performSettling
        (settleHeard (invoker callbacks levels)) (invoker callbacks levels)) operations)
      (transcript (perform (invoker callbacks' levels)) (operations.filter (!·.subscribes))) := by
    rw [← funext (performSettling_settle (invoker callbacks' levels))]
    refine mirrors_transcript_filter (fun operation hmem hcommon => ?_)
      fun operation _ hsubscribes engine other h => ?_
    · exact mirrors_performSettling_hushed (hoperations operation hmem hcommon)
        (settlesHushed_settleHeard hinvoke) hinvoke
    · rw [performSettling_of_not_settles _ _ (Operation.settles_of_subscribes hsubscribes)]
      exact h.of_subscribes hsubscribes _
  have hends := hmirrors _ _ (hushedAt_new config hfactory)
  rw [start_map, hheard] at hends
  generalize (transcript (perform (invoker callbacks' levels)) _).start _ = ending at hends ⊢
  cases hends with
  | ended _ h =>
    rw [← h.hushed]
    rfl

/-- Two instruments with listeners from outside, one of them unregistered. A callback listens to any
card that is used. -/
def serenade : List Operation :=
  [.addCard { id := "lute", category := .item }, .addCard { id := "drum", category := .item },
    .registerRule
      { name := "strum", trigger := .use, effects := [.create ["torch"] 1, .invoke ⟨"listen"⟩] },
    .unregisterCard ⟨1⟩, .subscribe ⟨0⟩ .null, .subscribe ⟨1⟩ .null, .use ⟨0⟩, .use ⟨1⟩,
    .unsubscribe ⟨0⟩ ⟨0⟩, .use ⟨0⟩]

theorem isDeaf_serenade :
    ∀ operation ∈ serenade, operation.subscribes = false → operation.IsDeaf := by
  have hcard (id : String) : (Operation.addCard { id, category := .item }).IsDeaf :=
    ⟨rfl, fun _ hmem => absurd hmem List.not_mem_nil, rfl, rfl, rfl, rfl, rfl⟩
  have huse (handle : Handle) : (Operation.use handle).IsDeaf :=
    ⟨rfl, fun _ hmem => absurd hmem List.not_mem_nil, trivial⟩
  have hunregister (handle : Handle) : (Operation.unregisterCard handle).IsDeaf :=
    ⟨rfl, fun _ hmem => absurd hmem List.not_mem_nil, trivial⟩
  have hrule : (Operation.registerRule
      { name := "strum", trigger := .use,
        effects := [.create ["torch"] 1, .invoke ⟨"listen"⟩] }).IsDeaf :=
    ⟨rfl, by simp [Operation.rules, Rule.IsDeaf], trivial⟩
  simp [serenade, hcard, huse, hunregister, hrule, Operation.subscribes]

/-- A callback that listens to the source of an event. -/
def eavesdropping : Callbacks := fun _ context =>
  .perform (.subscribe context.source .null) fun _ => .done ()

/-- A callback that does nothing. -/
def idling : Callbacks := fun _ _ => .done ()

/-- All that was heard of the serenade is of no consequence. -/
theorem serenades_are_overheard :
    ∃ outcomes after,
      (transcript (perform (invoker eavesdropping 1)) serenade).start (new {} torches) =
          some (.ok outcomes, after) ∧
        (transcript (perform (invoker idling 1)) (serenade.filter (!·.subscribes))).start
            (new {} torches) = some (.ok (outcomes.filter (!·.1.subscribes)), after.hushed) ∧
          (after.journal.toList.filter Entry.isHeard).length = 3 ∧
            after.forest.children ⟨0⟩ = [⟨2⟩, ⟨4⟩] := by
  have hrun : ((transcript (performSettling (settleUnstirred (invoker eavesdropping 1))
      (invoker eavesdropping 1)) serenade).start (new {} torches)).map
        (fun (result, after) => (result.isOk, (after.journal.toList.filter Entry.isHeard).length,
          after.forest.children ⟨0⟩)) = some (true, 3, [⟨2⟩, ⟨4⟩]) := by
    decide +kernel
  obtain ⟨⟨result, after⟩, hstart, hafter⟩ := Option.map_eq_some_iff.1 hrun
  obtain ⟨hok, hheard, hchildren⟩ : result.isOk = true ∧
      (after.journal.toList.filter Entry.isHeard).length = 3 ∧
        after.forest.children ⟨0⟩ = [⟨2⟩, ⟨4⟩] := by simpa using hafter
  cases result with
  | error error => cases hok
  | ok outcomes =>
    have hmutes (name : CallbackName) (context : RuleContext) :
        (eavesdropping name context).Mutes (idling name context) :=
      .leaveOut rfl fun _ => .done ()
    obtain ⟨hplain, hmuted⟩ :=
      listeners_only_observe 1 makesFresh_torches isDeaf_serenade hmutes hstart
    exact ⟨outcomes, after, hplain, hmuted, hheard, hchildren⟩

/-- Three cards, one of them unregistered and listened to from outside. All are ticked, as far as
they are registered, and then that one is used. -/
def distraction : List Operation :=
  [.addCard { id := "drum", category := .item }, .addCard { id := "fife", category := .item },
    .addCard { id := "gong", category := .item }, .unregisterCard ⟨2⟩, .subscribe ⟨2⟩ .null,
    .tickAll, .use ⟨2⟩]

/-- A card with a listener from outside, which a rule looks for. -/
def spotlight : List Operation :=
  [.addCard { id := "gong", category := .item },
    .registerRule {
      name := "notice"
      trigger := .use
      requirements := [.predicate fun forest _ => forest.cards.any (·.listeners.length > 1)]
      effects := [.addTag { scope := .source } "seen"] },
    .subscribe ⟨0⟩ .null, .use ⟨0⟩]

/-- A card whose use has a callback run. -/
def summons : List Operation :=
  [.addCard { id := "gong", category := .item },
    .registerRule { name := "summon", trigger := .use, effects := [.invoke ⟨"listen"⟩] }, .use ⟨0⟩]

/-- A callback that fails for want of a card to listen to. -/
def groping : Callbacks := fun _ _ => do
  discard (.request (.subscribe ⟨1⟩ .null))

/-- What listeners from outside can change. The use of a card that only they hear has an engine pump
that would not pump without them; a rule of the user's own may look for them; and a callback may fail
because there is nothing to listen to. -/
theorem listeners_can_interfere :
    (((transcript (perform (invoker idling 0)) distraction).start
          (new { maxEventsPerPump := 1 })).map (·.2.queue.length) = some 0 ∧
        ((transcript (perform (invoker idling 0)) (distraction.filter (!·.subscribes))).start
          (new { maxEventsPerPump := 1 })).map (·.2.queue.length) = some 1) ∧
      (((transcript (perform (invoker idling 0)) spotlight).start (new {})).map
          (fun (_, after) => (after.forest.get? ⟨0⟩).map (·.hasTag "seen")) = some (some true) ∧
        ((transcript (perform (invoker idling 0)) (spotlight.filter (!·.subscribes))).start
          (new {})).map
            (fun (_, after) => (after.forest.get? ⟨0⟩).map (·.hasTag "seen")) = some (some false)) ∧
      ((transcript (perform (invoker groping 1)) summons).start (new {})).map
          (·.2.pumpError.isSome) = some true ∧
        ((transcript (perform (invoker idling 1)) summons).start (new {})).map
          (·.2.pumpError.isSome) = some false := by
  refine ⟨⟨?_, ?_⟩, ⟨?_, ?_⟩, ?_, ?_⟩
  all_goals decide +kernel

end Engine

end CardRules
