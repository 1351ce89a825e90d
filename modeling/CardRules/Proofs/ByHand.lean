import CardRules.Proofs.Guises

/-!
An engine that pumps by itself, and one that is pumped by hand. Pumps on the engine's own account
come after operations that raised something, and only where nothing is under way; so an engine
without them is in the same state all the time if its caller pumps after those operations.
-/

namespace CardRules

open EngineM

namespace Engine

/-! ## Twins -/

/-- The engine with another setting for pumps on its own account, and another error kept from
them. -/
def twin (engine : Engine) (autoPump : Bool) (pumpError : Option Error) : Engine :=
  { engine with config := { engine.config with autoPump }, pumpError }

/-- Two engines agree on everything but whether they pump by themselves and on the error kept from
that. -/
def Twins (engine other : Engine) : Prop :=
  ∃ autoPump pumpError, other = engine.twin autoPump pumpError

/-- A twin is a guise. -/
theorem SeesThrough.twin {change : Engine → Engine} (h : SeesThrough change) (engine : Engine)
    (autoPump : Bool) (pumpError : Option Error) :
    change (engine.twin autoPump pumpError) = (change engine).twin autoPump pumpError := by
  refine (h engine { engine.config with autoPump } engine.rules pumpError).trans ?_
  rw [← h.config_eq engine, ← h.rules_eq engine]
  rfl

/-- Twins that are so deep in events. The second does not pump by itself, and the first has kept an
error from before or has none any more. -/
structure TwinsAt (depth : Nat) (kept : Option Error) (engine other : Engine) : Prop where
  twin : ∃ pumpError, other = engine.twin false pumpError
  depth : engine.depth = depth
  error : engine.pumpError = kept ∨ engine.pumpError = none

section

variable {depth : Nat} {kept : Option Error} {engine other : Engine} {left right : Invoker}

theorem TwinsAt.change (h : TwinsAt depth kept engine other) (change : Engine → Engine)
    (hchange : SeesThrough change) {later : Nat} (hdepth : (change engine).depth = later) :
    TwinsAt later kept (change engine) (change other) := by
  obtain ⟨⟨pumpError, rfl⟩, -, hkept⟩ := h
  exact ⟨⟨pumpError, hchange.twin engine false pumpError⟩, hdepth,
    (hchange.pumpError_eq engine).symm ▸ hkept⟩

theorem guises_twinsAt (depth : Nat) (kept : Option Error) : Guises (TwinsAt depth kept) where
  guise {engine _} h := by
    obtain ⟨⟨pumpError, rfl⟩, -, -⟩ := h
    exact ⟨{ engine.config with autoPump := false }, engine.rules, pumpError, rfl⟩
  change h change hchange hdepth := h.change change hchange (hdepth.trans h.depth)
  matched h raised := by
    obtain ⟨⟨_, rfl⟩, -, -⟩ := h
    exact ⟨rfl, rfl⟩

/-! ## Events and pumps -/

/-- Events are processed alike in twins, whether or not they pump by themselves. -/
theorem synchrony_twinsAt (depth : Nat) (kept : Option Error) :
    Synchrony (TwinsAt depth kept) (TwinsAt (depth + 1) kept) := by
  refine (guises_twinsAt depth kept).synchrony (guises_twinsAt (depth + 1) kept)
    (fun engine other h => ?_) (fun engine other h => ?_) fun engine other h => ?_
  · exact h.change enter (fun _ _ _ _ => rfl) (congrArg (· + 1) h.depth)
  · exact h.change leave seesThrough_leave (@depth_leave { engine with depth } engine h.depth)
  · obtain ⟨⟨_, rfl⟩, -, -⟩ := h
    rfl

/-- While an event is processed, settling is the same for twins: neither of them pumps. -/
theorem mirrors_settle (hdepth : 0 < depth) :
    Mirrors (TwinsAt depth kept) (settle left) (settle right) := by
  intro engine other h
  have hother : other.depth = depth := by
    obtain ⟨⟨_, rfl⟩, hengine, -⟩ := h
    exact hengine
  rw [start_settle_of_depth_pos left (h.depth ▸ hdepth),
    start_settle_of_depth_pos right (hother ▸ hdepth)]
  exact .ended (.ok ()) ((guises_twinsAt depth kept).deliver h)

end

end Engine

/-! ## Operations and programs -/

/-- A program that reads neither whether the engine pumps by itself nor the error kept from that: it
goes on in the same way for twins, and whatever the error is. -/
def Program.Overlooks {α : Type} : Program α → Prop
  | .done _ => True
  | .fail _ => True
  | .perform operation next =>
    (operation = .takePumpError → ∀ answer answer', next answer = next answer') ∧
      ∀ answer, (next answer).Overlooks
  | .inspect next =>
    (∀ engine other, Engine.Twins engine other → next engine = next other) ∧
      ∀ engine, (next engine).Overlooks
  | .note _ next => next.Overlooks

/-- Callbacks that read neither whether the engine pumps by itself nor the error kept from that. -/
def Callbacks.Overlook (callbacks : Callbacks) : Prop :=
  ∀ name context, (callbacks name context).Overlooks

namespace Engine

section

variable {depth : Nat} {kept : Option Error} {engine other : Engine} {left right : Invoker}

/-- Operations are the same for twins, if settling is. -/
theorem mirrors_perform (operation : Operation) (hread : operation ≠ .takePumpError)
    (hsettle : operation.settles = true → Mirrors (TwinsAt depth kept) (settle left) (settle right))
    (hinvoke : ∀ name context,
      Mirrors (TwinsAt (depth + 1) kept) (left name context) (right name context)) :
    Mirrors (TwinsAt depth kept) (perform left operation) (perform right operation) := by
  refine (guises_twinsAt depth kept).perform (synchrony_twinsAt depth kept)
    (fun _ _ _ _ _ name _ context => hinvoke name context) hsettle (fun rule _ => ?_)
    fun htaken => absurd htaken hread
  refine mirrors_addRule (fun engine other h => ?_) fun engine other h _ => ?_
  · obtain ⟨⟨_, rfl⟩, -, -⟩ := h
    rfl
  · obtain ⟨⟨pumpError, rfl⟩, hdepth, hkept⟩ := h
    exact ⟨⟨pumpError, rfl⟩, hdepth, hkept⟩

/-- Taking the error that was kept leaves twins, and none of them with an error. -/
theorem TwinsAt.withoutError (h : TwinsAt depth kept engine other) :
    TwinsAt depth kept { engine with pumpError := none } { other with pumpError := none } := by
  obtain ⟨⟨_, rfl⟩, hdepth, -⟩ := h
  exact ⟨⟨none, rfl⟩, hdepth, .inr rfl⟩

/-- A program that overlooks the difference runs alike in twins. -/
theorem mirrors_run {α : Type} {program : Program α} (hprogram : program.Overlooks)
    (hperform : ∀ operation, operation ≠ .takePumpError →
      Mirrors (TwinsAt depth kept) (perform left operation) (perform right operation)) :
    Mirrors (TwinsAt depth kept) (program.run (perform left)) (program.run (perform right)) := by
  induction program with
  | done value => exact .pure value
  | fail error => exact .throw error
  | perform operation next ih =>
    intro engine other h
    unfold Program.run
    by_cases hread : operation = .takePumpError
    · -- The answers differ, but the program goes on in the same way.
      subst hread
      rw [start_outcome_bind, start_outcome_bind]
      have hsame : next (.ok (.failure other.pumpError)) = next (.ok (.failure engine.pumpError)) :=
        hprogram.1 rfl _ _
      show Ends _ (((next (.ok (.failure engine.pumpError))).run _).start
        { engine with pumpError := none }) (((next (.ok (.failure other.pumpError))).run _).start
          { other with pumpError := none })
      rw [hsame]
      exact ih _ (hprogram.2 _) _ _ h.withoutError
    · refine (hperform operation hread engine other h).outcome.bind fun answer => ?_
      exact ih answer (hprogram.2 answer)
  | inspect next ih =>
    intro engine other h
    have hsame : next other = next engine := by
      obtain ⟨pumpError, htwin⟩ := h.twin
      exact (hprogram.1 engine other ⟨false, pumpError, htwin⟩).symm
    rw [Program.start_run_inspect, Program.start_run_inspect, hsame]
    exact ih engine (hprogram.2 engine) engine other h
  | note data next ih =>
    intro engine other h
    rw [Program.start_run_note, Program.start_run_note]
    exact ih hprogram _ _ (h.change (·.record (.noted data)) (fun _ _ _ _ => rfl) h.depth)

end

/-- While an event is processed, callbacks that overlook the difference do the same to twins. -/
theorem mirrors_invoker {callbacks : Callbacks} (hcallbacks : callbacks.Overlook)
    {kept : Option Error} (levels : Nat) {depth : Nat} (hdepth : 0 < depth) (name : CallbackName)
    (context : RuleContext) :
    Mirrors (TwinsAt depth kept) (invoker callbacks levels name context)
      (invoker callbacks levels name context) := by
  induction levels generalizing depth name context with
  | zero => exact fun _ _ _ => .never
  | succ levels ih =>
    refine mirrors_run (hcallbacks name context) fun operation hread => ?_
    exact mirrors_perform operation hread (fun _ => mirrors_settle hdepth)
      fun name context => ih (Nat.succ_pos depth) name context

/-! ## Pumping by hand -/

/-- Whether an operation raises an event on a card that anybody listens to. -/
def raises (engine : Engine) : Operation → Bool
  | .raise raised => engine.forest.listened raised.source
  | .tickAll => engine.registry.handles.any engine.forest.listened
  | .attach parent child intrinsic =>
    (engine.forest.attach parent child intrinsic).isOk && engine.forest.listened child
  | .removeChild parent child force =>
    (engine.forest.remove? parent child force).isSome && engine.forest.listened child
  | .detach child force =>
    (engine.forest.detach? child force).isSome && engine.forest.listened child
  | _ => false

/-- An operation, and right after it a pump by hand if it raised something. The outcomes of both are
the value. -/
def performByHand (invoke : Invoker) (operation : Operation) :
    EngineM (Except Error Answer × Option (Except Error Nat)) := do
  let engine ← get
  let answer ← (perform invoke operation).outcome
  if engine.raises operation then
    let pumped ← (pumpAll invoke).outcome
    return (answer, some pumped)
  else return (answer, none)

/-- What an engine that pumps by itself keeps as an error, compared with what pumping by hand comes
to: the error of that pump, and nothing new if there is none. -/
def KeepsErrorOf (pumped : Option (Except Error Nat)) (engine after : Engine) : Prop :=
  match pumped with
  | some (.error error) => after.pumpError = some error
  | some (.ok _) | none => after.pumpError = engine.pumpError ∨ after.pumpError = none

/-- One operation keeps two engines in step, of which the first pumps by itself and the second is
pumped by hand. It ends in none of them; or it answers the same in both, the engines agree then on
everything but the setting for pumps and the error kept from them, and so it goes on. -/
def KeepsStep (invoke : Invoker) (operation : Operation) (goesOn : Engine → Engine → Prop)
    (engine other : Engine) : Prop :=
  ((perform invoke operation).start engine = none ∧
      (performByHand invoke operation).start other = none) ∨
    ∃ answer pumped after after', (perform invoke operation).start engine = some (answer, after) ∧
      (performByHand invoke operation).start other = some (.ok (answer, pumped), after') ∧
      (∃ pumpError, after' = after.twin false pumpError) ∧ KeepsErrorOf pumped engine after ∧
      goesOn after after'

/-- Two engines keep in step over operations: each operation keeps them in step. -/
def InStep (invoke : Invoker) : List Operation → Engine → Engine → Prop
  | [] => fun _ _ => True
  | operation :: rest => KeepsStep invoke operation (InStep invoke rest)

theorem start_performByHand (invoke : Invoker) (operation : Operation) (engine : Engine) :
    (performByHand invoke operation).start engine =
      ((perform invoke operation).start engine).bind fun ended =>
        if engine.raises operation then
          ((pumpAll invoke).start ended.2).map fun pumped =>
            (.ok (ended.1, some pumped.1), pumped.2)
        else some (.ok (ended.1, none), ended.2) := by
  unfold performByHand
  rw [start_get_bind, start_outcome_bind]
  congr 1
  funext ended
  by_cases hraises : engine.raises operation = true
  · simp only [hraises, if_true]
    rw [start_outcome_bind]
    rcases (pumpAll invoke).start ended.2 with _ | ⟨pumped, final⟩ <;> rfl
  · simp only [hraises, Bool.false_eq_true, if_false]
    rfl

theorem start_bind_pure {α β : Type} (action : EngineM α) (value : β) (engine : Engine) :
    (action >>= fun _ => pure value).start engine = ((fun _ => value) <$> action).start engine := by
  rw [start_bind, start_map]
  rcases action.start engine with _ | ⟨_ | _, after⟩ <;> rfl

section

variable {engine other : Engine} {invoke : Invoker} {operation : Operation}

theorem start_settle_of_isEmpty (houtbox : engine.forest.outbox = []) :
    (settle invoke).start engine = some (.ok (), engine) := by
  rw [start_settle, houtbox]
  rfl

/-- An operation raises nothing and does nothing. -/
def Idles (engine : Engine) (operation : Operation) : Prop :=
  engine.raises operation = false ∧
    ∃ result, ∀ invoke here, here.forest = engine.forest →
      (perform invoke operation).start here = some (result, here)

/-- An operation changes the forest and then settles, and it has raised something if there is
something in the outbox then. -/
def Relinks (engine : Engine) (operation : Operation) : Prop :=
  ∃ forest answer, engine.raises operation = !forest.outbox.isEmpty ∧
    ∀ invoke here, here.forest = engine.forest → here.registry = engine.registry →
      (perform invoke operation).start here =
        ((fun _ => answer) <$> settle invoke).start { here with forest }

section

variable (houtbox : engine.forest.outbox = [])

include houtbox

/-- There is something in the outbox if anybody listens. -/
theorem isEmpty_outbox_append (events : List Raised) :
    (!(engine.forest.outbox ++ events.filter (engine.forest.listened ·.source)).isEmpty) =
      events.any (engine.forest.listened ·.source) := by
  rw [houtbox, List.nil_append, Bool.eq_iff_iff, Bool.not_eq_true', List.isEmpty_eq_false_iff,
    ne_eq, List.filter_eq_nil_iff]
  simp

theorem idles_or_relinks_raise (raised : Raised) :
    Idles engine (.raise raised) ∨ Relinks engine (.raise raised) := by
  by_cases hknown : engine.forest.contains raised.source = true
  · refine .inr ⟨engine.forest.emit raised.source raised.event, .done, ?_,
      fun invoke here hforest _ => ?_⟩
    · rw [Forest.outbox_emit, isEmpty_outbox_append houtbox]
      simp [raises]
    · show ((raise _ raised) >>= _).start here = _
      rw [start_bind_pure, start_map, start_map, start_raise, hforest, if_pos hknown]
  · refine .inl ⟨?_, .error (.unknownCard raised.source), fun invoke here hforest => ?_⟩
    · rw [Bool.eq_false_iff]
      exact fun hlistened => hknown (Forest.contains_of_listened hlistened)
    · show ((raise _ raised) >>= _).start here = _
      rw [start_bind, start_raise, hforest, if_neg hknown]

theorem relinks_tickAll : Relinks engine .tickAll := by
  refine ⟨engine.registry.handles.foldl (·.emit · .tick) engine.forest, .done, ?_,
    fun invoke here hforest hregistry => ?_⟩
  · rw [Forest.outbox_foldl_emit, isEmpty_outbox_append houtbox, List.any_map]
    rfl
  · rw [← hforest, ← hregistry]
    exact start_bind_pure ..

theorem idles_or_relinks_attach (parent child : Handle) (intrinsic : Bool) :
    Idles engine (.attach parent child intrinsic) ∨
      Relinks engine (.attach parent child intrinsic) := by
  cases hattach : engine.forest.attach parent child intrinsic with
  | error error =>
    refine .inl ⟨by simp only [raises, hattach]; rfl, .error error, fun invoke here hforest => ?_⟩
    show ((attach _ parent child intrinsic) >>= _).start here = _
    rw [start_bind, start_attach, hforest, hattach]
  | ok forest =>
    refine .inr ⟨forest, .done, ?_, fun invoke here hforest _ => ?_⟩
    · rw [Forest.outbox_attach hattach, isEmpty_outbox_append houtbox]
      simp [raises, hattach, Except.isOk, Except.toBool]
    · show ((attach _ parent child intrinsic) >>= _).start here = _
      rw [start_bind_pure, start_map, start_map, start_attach, hforest, hattach]

/-- Removing a child, in one way or the other: `found` is the forest without it, if it can be
removed. -/
theorem idles_or_relinks_remove {found : Option Forest} {child : Handle}
    (hremoved : ∀ forest, found = some forest → ∃ parent force,
      engine.forest.remove? parent child force = some forest)
    (hraises : engine.raises operation = (found.isSome && engine.forest.listened child))
    (hstart : ∀ invoke here, here.forest = engine.forest →
      (perform invoke operation).start here =
        (found.elim (((fun _ => false) <$> settle invoke).start here) fun forest =>
          ((fun _ => true) <$> settle invoke).start { here with forest }).map
            fun (result, after) => (result.map Answer.flag, after)) :
    Idles engine operation ∨ Relinks engine operation := by
  cases found with
  | none =>
    refine .inl ⟨hraises, .ok (.flag false), fun invoke here hforest => ?_⟩
    rw [hstart invoke here hforest, Option.elim_none, start_map,
      start_settle_of_isEmpty (hforest ▸ houtbox)]
    rfl
  | some forest =>
    obtain ⟨parent, force, hremove⟩ := hremoved forest rfl
    refine .inr ⟨forest, .flag true, ?_, fun invoke here hforest _ => ?_⟩
    · rw [hraises, Forest.outbox_remove? hremove, isEmpty_outbox_append houtbox]
      simp
    · rw [hstart invoke here hforest, Option.elim_some, start_map, start_map]
      rcases (settle invoke).start { here with forest } with _ | ⟨_ | _, after⟩ <;> rfl

theorem idles_or_relinks (hsettles : operation.settles = true)
    (hcreate : ∀ id, operation ≠ .createCard id) :
    Idles engine operation ∨ Relinks engine operation := by
  cases operation with
  | createCard id => exact absurd rfl (hcreate id)
  | raise raised => exact idles_or_relinks_raise houtbox raised
  | tickAll => exact .inr (relinks_tickAll houtbox)
  | attach parent child intrinsic => exact idles_or_relinks_attach houtbox parent child intrinsic
  | removeChild parent child force =>
    refine idles_or_relinks_remove houtbox (fun _ h => ⟨parent, force, h⟩) rfl
      fun invoke here hforest => ?_
    show (Answer.flag <$> removeChild _ parent child force).start here = _
    rw [start_map, start_removeChild, hforest]
    cases engine.forest.remove? parent child force <;> rfl
  | detach child force =>
    refine idles_or_relinks_remove houtbox (fun forest h => ?_) rfl fun invoke here hforest => ?_
    · unfold Forest.detach? at h
      split at h
      next owner _ => exact ⟨owner, force, h⟩
      next => cases h
    · show (Answer.flag <$> detach _ child force).start here = _
      rw [start_map, start_detach, hforest]
      cases engine.forest.detach? child force <;> rfl
  | _ => cases hsettles

end

theorem KeepsStep.goingOn {goesOn : Engine → Engine → Prop}
    (h : KeepsStep invoke operation (fun _ _ => True) engine other)
    (hgoes : ∀ answer after, (perform invoke operation).start engine = some (answer, after) →
      ∀ pumpError, goesOn after (after.twin false pumpError)) :
    KeepsStep invoke operation goesOn engine other := by
  rcases h with hnever | ⟨answer, pumped, after, after', hstart, hstart', ⟨error, rfl⟩, hkept, -⟩
  · exact .inl hnever
  · exact .inr ⟨answer, pumped, after, _, hstart, hstart', ⟨error, rfl⟩, hkept,
      hgoes answer after hstart error⟩

section

variable (hinvoke : ∀ kept name context,
  Mirrors (TwinsAt 1 kept) (invoke name context) (invoke name context))

include hinvoke

/-- Where nothing is raised there is no pump, in either engine. -/
theorem keepsStep_of_not_settles (htwin : TwinsAt 0 engine.pumpError engine other)
    (hsettles : operation.settles = false)
    (hread : operation ≠ .takePumpError) :
    KeepsStep invoke operation (fun _ _ => True) engine other := by
  have hquiet : other.raises operation = false := by
    cases operation with
    | raise | tickAll | attach | removeChild | detach => cases hsettles
    | _ => rfl
  have hmirror := mirrors_perform operation hread (by simp [hsettles]) (hinvoke engine.pumpError)
    engine other htwin
  have hstart := start_performByHand invoke operation other
  unfold KeepsStep
  generalize (perform invoke operation).start engine = ending at hmirror
  generalize (perform invoke operation).start other = ending' at hmirror hstart
  cases hmirror with
  | never => exact .inl ⟨rfl, hstart⟩
  | ended answer hafter =>
    refine .inr ⟨answer, none, _, _, rfl, ?_, hafter.twin, hafter.error, trivial⟩
    rw [hstart, hquiet]
    rfl

/-- The pump of the first engine is that of the second, but for what becomes of its error. -/
theorem keepsStep_of_pumps {answer : Answer} {here here' : Engine}
    (hhere : TwinsAt 0 engine.pumpError here here') (hraises : other.raises operation = true)
    (hstart : (perform invoke operation).start engine =
      ((fun _ => answer) <$> pumpQuietly invoke).start here)
    (hstart' : (perform invoke operation).start other = some (.ok answer, here')) :
    KeepsStep invoke operation (fun _ _ => True) engine other := by
  have hbyHand : (performByHand invoke operation).start other =
      ((pumpAll invoke).start here').map fun pumped =>
        (.ok (.ok answer, some pumped.1), pumped.2) := by
    rw [start_performByHand, hstart', hraises]
    rfl
  rw [start_map, start_pumpQuietly] at hstart
  have hmirror := (synchrony_twinsAt 0 engine.pumpError).pumpAll
    (fun _ _ _ _ _ name _ context => hinvoke engine.pumpError name context) here here' hhere
  unfold KeepsStep
  generalize (pumpAll invoke).start here = ending at hmirror hstart
  generalize (pumpAll invoke).start here' = ending' at hmirror hbyHand
  cases hmirror with
  | never => exact .inl ⟨hstart, hbyHand⟩
  | ended pumped hafter =>
    obtain ⟨pumpError, hafter'⟩ := hafter.twin
    cases pumped with
    | ok count =>
      exact .inr ⟨.ok answer, some (.ok count), _, _, hstart, hbyHand, ⟨pumpError, hafter'⟩,
        hafter.error, trivial⟩
    | error error =>
      -- The first engine keeps the error that pumping by hand comes to.
      refine .inr ⟨.ok answer, some (.error error), _, _, hstart, hbyHand, ⟨pumpError, ?_⟩, rfl,
        trivial⟩
      rw [hafter']
      rfl

theorem keepsStep (htwin : TwinsAt 0 engine.pumpError engine other)
    (hidle : engine.isIdle = true) (houtbox : engine.forest.outbox = [])
    (hauto : engine.config.autoPump = true) (hcreate : ∀ id, operation ≠ .createCard id)
    (hread : operation ≠ .takePumpError) :
    KeepsStep invoke operation (fun _ _ => True) engine other := by
  cases hsettles : operation.settles with
  | false => exact keepsStep_of_not_settles hinvoke htwin hsettles hread
  | true =>
    have htwins := guises_twinsAt 0 engine.pumpError
    have hforest := htwins.forest_eq htwin
    obtain ⟨hmanual, hregistry, hraises⟩ : other.config.autoPump = false ∧
        other.registry = engine.registry ∧ other.raises operation = engine.raises operation := by
      obtain ⟨⟨_, rfl⟩, -, -⟩ := htwin
      exact ⟨rfl, rfl, by cases operation <;> rfl⟩
    rcases idles_or_relinks houtbox hsettles hcreate with
      ⟨hnone, result, hstart⟩ | ⟨forest, answer, hsome, hstart⟩
    · refine .inr ⟨result, none, engine, other, hstart invoke engine rfl, ?_, htwin.twin,
        htwin.error, trivial⟩
      rw [start_performByHand, hstart invoke other hforest, hraises, hnone]
      rfl
    · have hhere := htwins.withForest htwin forest
      have hengine := hstart invoke engine rfl rfl
      have hother := hstart invoke other hforest hregistry
      rw [start_map, start_settle] at hengine hother
      by_cases hempty : forest.outbox.isEmpty = true
      · rw [if_pos hempty] at hengine hother
        refine .inr ⟨_, none, _, _, hengine, ?_, hhere.twin, hhere.error, trivial⟩
        rw [start_performByHand, hother, hraises, hsome, hempty]
        rfl
      · have hidle' : { engine with forest }.deliver.isIdle = true :=
          (isIdle_deliver _).trans hidle
        rw [if_neg hempty, config_deliver, hidle', hauto, Bool.and_self, if_pos rfl,
          ← start_map] at hengine
        rw [if_neg hempty, config_deliver, hmanual, Bool.false_and] at hother
        refine keepsStep_of_pumps hinvoke (htwins.deliver hhere) ?_ hengine hother
        rw [hraises, hsome]
        simpa using hempty

end

end

/-- Pumping by hand keeps in step with an engine that pumps by itself, over any operations at rest
other than to create a card and to take the error that was kept: after each operation both have the
same cards, registry, queues, rules and chances, and each operation answers the same. -/
theorem pumping_by_hand_keeps_in_step {callbacks : Callbacks} {levels : Nat}
    {engine : Engine} {pumpError : Option Error} {operations : List Operation}
    (hcallbacks : callbacks.Overlook) (hidle : engine.isIdle = true)
    (houtbox : engine.forest.outbox = []) (hauto : engine.config.autoPump = true)
    (hoperations : ∀ operation ∈ operations,
      (∀ id, operation ≠ .createCard id) ∧ operation ≠ .takePumpError) :
    InStep (invoker callbacks levels) operations engine (engine.twin false pumpError) := by
  induction operations generalizing engine pumpError with
  | nil => trivial
  | cons operation rest ih =>
    obtain ⟨hcreate, hread⟩ := hoperations operation List.mem_cons_self
    have hdepth : engine.depth = 0 := by
      unfold isIdle at hidle
      simp at hidle
      exact hidle.2
    have htwin : TwinsAt 0 engine.pumpError engine (engine.twin false pumpError) :=
      ⟨⟨pumpError, rfl⟩, hdepth, .inl rfl⟩
    have hstep := keepsStep (fun _ => mirrors_invoker hcallbacks levels Nat.one_pos) htwin hidle
      houtbox hauto hcreate hread
    refine hstep.goingOn fun answer after hstart error => ?_
    -- The operation leaves the first engine as it found it: idle, and set up to pump by itself.
    have hcourse : Course (fun _ => True) .acting engine after :=
      course_of_perform callbacks.askOnly_true trivial hstart
    refine ih ?_ ?_ ?_ ?_
    · unfold isIdle at hidle ⊢
      rw [hcourse.pumping_eq, hcourse.depth_eq]
      exact hidle
    · exact hcourse.keeps outbox_stays houtbox
    · rw [hcourse.config_eq]
      exact hauto
    · exact fun other hmem => hoperations other (List.mem_cons_of_mem _ hmem)

/-- Using this hearth lights a torch at it and moves the flame. -/
def hearth : Engine :=
  { (new {} torches).addCard { id := "hearth", category := .location } with
    rules := [
      { name := "light", trigger := .use, effects := [.create ["torch"] 1, .invoke ⟨"move"⟩] }] }

theorem overlook_moving : moving.Overlook :=
  fun _ _ => ⟨nofun, fun _ => ⟨nofun, fun _ => trivial⟩⟩

/-- The hearth is used and then a torch taken away, in a hearth that pumps by itself and in one that
is pumped by hand. -/
theorem hearths_keep_in_step :
    InStep (invoker moving 1) [.raise ⟨⟨0⟩, .use⟩, .detach ⟨1⟩ false] hearth
        (hearth.twin false none) ∧
      ∃ result after, (perform (invoker moving 1) (.raise ⟨⟨0⟩, .use⟩)).start hearth =
        some (result, after) ∧ result.isOk = true ∧ after.forest.children ⟨0⟩ = [⟨1⟩, ⟨2⟩] := by
  have hfacts : ((perform (invoker moving 1) (.raise ⟨⟨0⟩, .use⟩)).start hearth).map
      (fun ended => (ended.1.isOk, ended.2.forest.children ⟨0⟩)) =
      some (true, [⟨1⟩, ⟨2⟩]) := by
    decide +kernel
  obtain ⟨⟨result, after⟩, hstart, hvalues⟩ := Option.map_eq_some_iff.1 hfacts
  obtain ⟨hok, hchildren⟩ := Prod.mk.inj hvalues
  refine ⟨?_, result, after, hstart, hok, hchildren⟩
  refine pumping_by_hand_keeps_in_step overlook_moving rfl rfl rfl fun operation hmem => ?_
  simp only [List.mem_cons, List.not_mem_nil, or_false] at hmem
  rcases hmem with rfl | rfl
  · exact ⟨nofun, nofun⟩
  · exact ⟨nofun, nofun⟩

end Engine

end CardRules
