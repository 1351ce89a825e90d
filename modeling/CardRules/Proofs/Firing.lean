import CardRules.Proofs.Matching
import CardRules.Proofs.Ownership
import CardRules.Proofs.Scheduling

/-!
The rules that run for an event. They are those of the matches that were found, in their order, up
to a rule that fails or that is to be the last one; each runs in the context it was found with,
whatever the rules before it did. The journal says which they were: the rules of one event are those
that fired at its depth, and the events processed meanwhile are deeper.
-/

namespace CardRules

/-- The context of a rule that the journal says began to run at a depth. -/
def Entry.firedAt? (depth : Nat) : Entry → Option RuleContext
  | .fired level context => if level = depth then some context else none
  | _ => none

namespace Engine

/-- The contexts of the rules that ever began to run at a depth, in order. -/
def firedAt (engine : Engine) (depth : Nat) : List RuleContext :=
  engine.journal.toList.filterMap (Entry.firedAt? depth)

/-- What the effects of a match do, once the journal says that its rule runs. -/
def carryOut (invoke : Invoker) (found : Match) (engine : Engine) :
    Option (Except Error Unit × Engine) :=
  (found.rule.effects.forM (·.run invoke found.context)).start
    (engine.record (.fired engine.depth found.context))

/-- Matches that are executed in order, from one engine to another: how many of them run depends on
whether the rules fail, and on whether one that does not is to be the last. -/
inductive Executes (invoke : Invoker) :
    List Match → Engine → List Match → Except Error Unit → Engine → Prop
  | nothing (engine : Engine) : Executes invoke [] engine [] (.ok ()) engine
  | failed {found : Match} {rest : List Match} {engine after : Engine} {error : Error}
    (ran : carryOut invoke found engine = some (.error error, after)) :
    Executes invoke (found :: rest) engine [found] (.error error) after
  | stopped {found : Match} {rest : List Match} {engine after : Engine}
    (ran : carryOut invoke found engine = some (.ok (), after))
    (last : found.rule.policy.stopOnSuccess = true) :
    Executes invoke (found :: rest) engine [found] (.ok ()) after
  | wentOn {found : Match} {rest executed : List Match} {engine after last : Engine}
    {outcome : Except Error Unit} (ran : carryOut invoke found engine = some (.ok (), after))
    (more : found.rule.policy.stopOnSuccess = false)
    (others : Executes invoke rest after executed outcome last) :
    Executes invoke (found :: rest) engine (found :: executed) outcome last

variable {allowed : Operation → Prop} {stage : Stage} {invoke : Invoker} {callbacks : Callbacks}
  {engine after left : Engine} {outcome : Except Error Unit} {chosen executed : List Match}

/-! ## Runs of matches -/

theorem start_runMatches_cons (found : Match) (rest : List Match) :
    (runMatches invoke (found :: rest)).start engine =
      match carryOut invoke found engine with
      | none => none
      | some (.ok (), after) =>
        if found.rule.policy.stopOnSuccess then some (.ok (), after)
        else (runMatches invoke rest).start after
      | some (.error error, after) => some (.error error, after) := by
  show (runMatch invoke found >>= fun _ =>
    if found.rule.policy.stopOnSuccess then pure () else runMatches invoke rest).start engine = _
  rw [EngineM.start_bind, start_runMatch]
  unfold carryOut
  rcases EngineM.start _ _ with _ | ⟨_ | _, after⟩
  · rfl
  · rfl
  · simp only
    split <;> rfl

/-- Running matches is executing them. -/
theorem Executes.start_runMatches (h : Executes invoke chosen engine executed outcome after) :
    (runMatches invoke chosen).start engine = some (outcome, after) := by
  induction h with
  | nothing => rfl
  | failed ran => rw [start_runMatches_cons, ran]
  | stopped ran last => simp only [start_runMatches_cons, ran, last, if_true]
  | wentOn ran more _ ih =>
    rw [start_runMatches_cons, ran]
    simpa only [more, Bool.false_eq_true, if_false] using ih

theorem exists_executes (h : (runMatches invoke chosen).start engine = some (outcome, after)) :
    ∃ executed, Executes invoke chosen engine executed outcome after := by
  induction chosen generalizing engine with
  | nil =>
    cases h
    exact ⟨[], .nothing _⟩
  | cons found rest ih =>
    rw [start_runMatches_cons] at h
    rcases hran : carryOut invoke found engine with _ | ⟨error | ⟨⟩, middle⟩
    · simp [hran] at h
    · -- An error ends the matches, and is their outcome.
      rw [hran] at h
      cases h
      exact ⟨_, .failed hran⟩
    · simp only [hran] at h
      by_cases hstop : found.rule.policy.stopOnSuccess = true
      · rw [if_pos hstop] at h
        cases h
        exact ⟨_, .stopped hran hstop⟩
      · rw [if_neg hstop] at h
        obtain ⟨executed, hexecutes⟩ := ih h
        exact ⟨_, .wentOn hran (by simpa using hstop) hexecutes⟩

/-! ## What fired -/

theorem firedAt_record (engine : Engine) (entry : Entry) (depth : Nat) :
    (engine.record entry).firedAt depth =
      engine.firedAt depth ++ (entry.firedAt? depth).toList := by
  unfold firedAt record
  cases h : entry.firedAt? depth <;> simp [h]

theorem SameSchedule.firedAt_eq (h : SameSchedule engine after) (depth : Nat) :
    after.firedAt depth = engine.firedAt depth := by
  unfold firedAt
  rw [h.journal]

theorem firedAt_enqueue (engine : Engine) (raised : Raised) (depth : Nat) :
    (engine.enqueue raised).firedAt depth = engine.firedAt depth := by
  unfold enqueue
  split
  · exact (firedAt_record _ _ _).trans (List.append_nil _)
  · exact (firedAt_record _ _ _).trans (List.append_nil _)

theorem firedAt_deliver (engine : Engine) (depth : Nat) :
    engine.deliver.firedAt depth = engine.firedAt depth := by
  refine @deliver_keeps (fun after => after.firedAt depth = engine.firedAt depth) ?_ ?_ engine rfl
  · exact fun raised after h => (firedAt_enqueue after raised depth).trans h
  · intro listener note raised after h
    rw [firedAt_record, h]
    exact List.append_nil _

theorem Change.firedAt_eq (h : Change allowed engine after) (depth : Nat) :
    after.firedAt depth = engine.firedAt depth := by
  rcases h.schedule with hsame | ⟨forest, rfl⟩ | ⟨data, rfl⟩
  · exact hsame.firedAt_eq depth
  · exact firedAt_deliver _ depth
  · exact (firedAt_record _ _ _).trans (List.append_nil _)

/-- The rules of an event fire at its depth, and all that happens while they run is deeper. -/
theorem Course.firedAt_eq {depth : Nat} (h : Course allowed stage engine after) :
    depth < engine.depth ∨ stage ≠ .firing ∧ depth = engine.depth →
      after.firedAt depth = engine.firedAt depth := by
  induction h with
  | refl => exact fun _ => rfl
  | trans hbefore _ ih₁ ih₂ =>
    intro hdepth
    exact (ih₂ (hbefore.depth_eq ▸ hdepth)).trans (ih₁ hdepth)
  | change hchange => exact fun _ => hchange.firedAt_eq depth
  | draw => exact fun _ => rfl
  | fire engine context =>
    intro hdepth
    have hother : ¬ engine.depth = depth := by
      rcases hdepth with hdepth | ⟨hstage, -⟩
      · omega
      · exact absurd rfl hstage
    rw [firedAt_record]
    simp [Entry.firedAt?, hother]
  | effects _ ih =>
    intro hdepth
    rcases hdepth with hdepth | ⟨hstage, -⟩
    · exact ih (.inl hdepth)
    · exact absurd rfl hstage
  | @process engine after _ ih =>
    intro hdepth
    have hleave : after.leave.firedAt depth = after.firedAt depth := by
      unfold Engine.leave
      split <;> rfl
    -- What fires in here fires deeper than the depth we look at.
    have hdeeper : depth < engine.enter.depth := by
      show depth < engine.depth + 1
      omega
    exact hleave.trans (ih (.inl hdeeper))
  | take htaken =>
    intro _
    obtain ⟨rest, -, rfl⟩ := takeNext?_eq_some htaken
    exact (firedAt_record _ _ _).trans (List.append_nil _)
  | serve _ ih =>
    intro hdepth
    exact ih (hdepth.imp_right fun h => ⟨by simp, h.2⟩)
  | pump _ _ ih =>
    intro hdepth
    exact ih (hdepth.imp_right fun h => ⟨by simp, h.2⟩)

/-! ## Matches that were executed -/

theorem course_of_carryOut {depth : Nat} {found : Match}
    (h : carryOut (invoker callbacks depth) found engine = some (outcome, after)) :
    Course (fun _ => True) .acting (engine.record (.fired engine.depth found.context)) after := by
  have heffects := alike_effects stays_true found.context found.rule.effects
    (fun name _ => follows_invoker callbacks.askOnly_true depth name found.context)
  exact (heffects _ trivial).course h

/-- Effects without callbacks make changes, and no event is processed meanwhile. -/
theorem course_of_carryOut_quiet {found : Match}
    (hquiet : ∀ name, Effect.invoke name ∉ found.rule.effects)
    (h : carryOut invoke found engine = some (outcome, after)) :
    Course (fun _ => True) .quiet (engine.record (.fired engine.depth found.context)) after := by
  have heffects := @alike_effects (fun _ => True) (fun _ => True) .quiet stays_true invoke invoke
    found.context found.rule.effects (fun name hmem => absurd hmem (hquiet name))
  exact (heffects _ trivial).course h

theorem firedAt_of_carryOut {depth : Nat} {found : Match}
    (h : carryOut (invoker callbacks depth) found engine = some (outcome, after)) :
    after.firedAt engine.depth = engine.firedAt engine.depth ++ [found.context] := by
  have hfired : (engine.record (.fired engine.depth found.context)).firedAt engine.depth =
      engine.firedAt engine.depth ++ [found.context] := by
    rw [firedAt_record]
    simp [Entry.firedAt?]
  exact ((course_of_carryOut h).firedAt_eq (.inr ⟨by simp, rfl⟩)).trans hfired

/-- The journal tells which matches were executed, in order. -/
theorem Executes.firedAt_eq {depth : Nat}
    (h : Executes (invoker callbacks depth) chosen engine executed outcome after) :
    after.firedAt engine.depth = engine.firedAt engine.depth ++ executed.map (·.context) := by
  induction h with
  | nothing => exact (List.append_nil _).symm
  | failed ran => exact firedAt_of_carryOut ran
  | stopped ran => exact firedAt_of_carryOut ran
  | @wentOn found rest executed engine after last outcome ran _ _ ih =>
    -- The next match fires at the same depth, because all that was entered was left.
    have hdepth : after.depth = engine.depth := (course_of_carryOut ran).depth_eq
    rw [hdepth, firedAt_of_carryOut ran] at ih
    rw [ih, List.map_cons, List.append_assoc, List.singleton_append]

theorem Course.generator_eq (h : Course allowed stage engine after) :
    stage = .quiet → after.generator = engine.generator := by
  induction h with
  | refl => exact fun _ => rfl
  | trans _ _ ih₁ ih₂ => exact fun hstage => (ih₂ hstage).trans (ih₁ hstage)
  | change hchange => exact fun _ => hchange.generator_eq
  | _ => exact fun hstage => nomatch hstage

theorem Executes.generator_eq (h : Executes invoke chosen engine executed outcome after)
    (hquiet : ∀ found ∈ executed, ∀ name, Effect.invoke name ∉ found.rule.effects) :
    after.generator = engine.generator := by
  induction h with
  | nothing => rfl
  | failed ran =>
    exact (course_of_carryOut_quiet (hquiet _ List.mem_cons_self) ran).generator_eq rfl
  | stopped ran =>
    exact (course_of_carryOut_quiet (hquiet _ List.mem_cons_self) ran).generator_eq rfl
  | wentOn ran _ _ ih =>
    have hfirst := (course_of_carryOut_quiet (hquiet _ List.mem_cons_self) ran).generator_eq rfl
    exact (ih fun found hmem => hquiet found (List.mem_cons_of_mem _ hmem)).trans hfirst

/-! ## The law -/

theorem finds_enter {raised : Raised} {found : Placed} :
    engine.enter.Finds raised found ↔ engine.Finds raised found :=
  ⟨fun h => ⟨h.stands, h.trigger, h.accepts, h.gathers⟩,
    fun h => ⟨h.stands, h.trigger, h.accepts, h.gathers⟩⟩

/-- The engine in which the rules for an event run: all are gathered, and none has run. -/
def matching (engine : Engine) (raised : Raised) : Engine :=
  { engine.enter with generator := engine.generatorAfter raised engine.rules }

/-- What an event leaves behind when certain matches were executed for it: the journal tells their
contexts, and without callbacks the chances go on from where gathering left them. -/
structure Fired (engine : Engine) (raised : Raised) (executed : List Match) (left : Engine) :
    Prop where
  contexts : left.firedAt (engine.depth + 1) =
    engine.firedAt (engine.depth + 1) ++ executed.map (·.context)
  generator : (∀ found ∈ executed, ∀ name, Effect.invoke name ∉ found.rule.effects) →
    left.generator = engine.generatorAfter raised engine.rules

theorem Executes.fired {depth : Nat} {raised : Raised}
    (h : Executes (invoker callbacks depth) chosen (engine.matching raised) executed outcome
      after) :
    Fired engine raised executed after.leave := by
  have hjournal : after.leave.journal = after.journal := by
    unfold Engine.leave
    split <;> rfl
  have hgenerator : after.leave.generator = after.generator := by
    unfold Engine.leave
    split <;> rfl
  refine ⟨?_, fun hquiet => hgenerator.trans (h.generator_eq hquiet)⟩
  have hfired := h.firedAt_eq
  unfold firedAt at hfired ⊢
  rw [hjournal]
  exact hfired

theorem start_runRules_matching {raised : Raised}
    (h : engine.enter.config.choose (engine.enter.findMatches raised).1 = chosen) :
    (runRules invoke raised).start engine.enter =
      (runMatches invoke chosen).start (engine.matching raised) := by
  have hmatching : (engine.enter.findMatches raised).2 = engine.matching raised := by
    rw [findMatches_eq]
    rfl
  rw [start_runRules, hmatching, h]

/-- What an event does is decided by the matches that are found in the engine as it is then. They
run in their order, the first of them or all, up to one that fails or that is to be the last; each
runs in the context that it was found with. Processing has the outcome that executing them has, and
leaves what they leave. -/
theorem rules_run_as_found (callbacks : Callbacks) (depth : Nat) (engine : Engine)
    (raised : Raised) :
    ∃ found : List Placed,
      found.Pairwise engine.config.ruleOrder.Before ∧
      (∀ placed, placed ∈ found ↔ engine.Finds raised placed) ∧
      let chosen := engine.config.execution.limit (found.map (·.toMatch))
      (∀ outcome left,
        (process (invoker callbacks depth) raised).start engine = some (outcome, left) →
          ∃ executed after,
            Executes (invoker callbacks depth) chosen (engine.matching raised) executed outcome
              after ∧
            left = after.leave ∧ Fired engine raised executed left) ∧
      ∀ executed outcome after,
        Executes (invoker callbacks depth) chosen (engine.matching raised) executed outcome after →
          (process (invoker callbacks depth) raised).start engine =
            some (outcome, after.leave) := by
  obtain ⟨found, hordered, hfound, hchosen⟩ := exists_inOrder engine.enter raised
  have hrules : (runRules (invoker callbacks depth) raised).start engine.enter =
      (runMatches (invoker callbacks depth) (engine.config.execution.limit
        (found.map (·.toMatch)))).start (engine.matching raised) :=
    start_runRules_matching hchosen
  refine ⟨found, hordered, fun placed => (hfound placed).trans finds_enter, ?_, ?_⟩
  · intro outcome left hprocess
    obtain ⟨after, hran, rfl⟩ := process_eq_some _ hprocess
    rw [hrules] at hran
    obtain ⟨executed, hexecutes⟩ := exists_executes hran
    exact ⟨executed, after, hexecutes, rfl, hexecutes.fired⟩
  · intro executed outcome after hexecutes
    rw [start_process, EngineM.start_thenAlways]
    rw [hrules, hexecutes.start_runMatches]
    rfl

/-- A bench with three rules for its use: it is tagged; if it is not tagged, this is the last rule;
and one more. -/
def bench : Engine :=
  { (new { ruleOrder := .registration }).addCard { id := "bench", category := .location } with
    rules := [
      { name := "use", trigger := .use, effects := [.addTag { scope := .source } "used"] },
      { name := "fresh", trigger := .use,
        requirements := [.absent { scope := .source, filter := .tag "used" }],
        policy := { stopOnSuccess := true } },
      { name := "more", trigger := .use }] }

theorem bench_runs_as_found :
    ∃ found : List Placed, found.Pairwise RuleOrder.registration.Before ∧
      (∀ placed, placed ∈ found ↔ bench.Finds ⟨⟨0⟩, .use⟩ placed) ∧
      ∃ outcome left executed after,
        (process (invoker moving 0) ⟨⟨0⟩, .use⟩).start bench = some (outcome, left) ∧
        Executes (invoker moving 0) (found.map (·.toMatch)) (bench.matching ⟨⟨0⟩, .use⟩) executed
          outcome after ∧
        executed.map (·.context.rule) = ["use", "fresh"] := by
  obtain ⟨found, hordered, hfound, hexecuted, -⟩ := rules_run_as_found moving 0 bench ⟨⟨0⟩, .use⟩
  have hnames : ((process (invoker moving 0) ⟨⟨0⟩, .use⟩).start bench).map
      (fun (_, left) => (left.firedAt 1).map (·.rule)) = some ["use", "fresh"] := by
    decide +kernel
  obtain ⟨⟨outcome, left⟩, hprocess, hfired⟩ := Option.map_eq_some_iff.1 hnames
  obtain ⟨executed, after, hexecutes, -, hcontexts, -⟩ := hexecuted outcome left hprocess
  refine ⟨found, hordered, hfound, outcome, left, executed, after, hprocess, hexecutes, ?_⟩
  have hnone : bench.firedAt (bench.depth + 1) = [] := by decide +kernel
  have hleft : left.firedAt 1 = executed.map (·.context) := by
    rw [hnone, List.nil_append] at hcontexts
    exact hcontexts
  have hrules : (left.firedAt 1).map (·.rule) = ["use", "fresh"] := hfired
  rwa [hleft, List.map_map] at hrules

end Engine

end CardRules
