import CardRules.Proofs.Gathering
import CardRules.Proofs.Skeleton
import CardRules.Proofs.Territory

/-!
Rules stay inside the territory of the card that an event comes from. All that a rule gathers lies
in it, and so does all that its effects select, create and change; and what they raise comes from
there, so that a pump stays inside as well, from one event to the next.
-/

namespace CardRules

open EngineM

/-! ## What is gathered and selected -/

/-- The cards that a selection names lie within a set of handles. -/
structure Selection.Within (selection : Selection) (within : Set Handle) : Prop where
  source : selection.source ∈ within
  container : selection.container ∈ within
  matched : ∀ handle ∈ selection.matched, handle ∈ within

/-- Cards that are handed over join the matched ones. -/
theorem Selection.Within.joined {selection : Selection} {within : Set Handle}
    (h : selection.Within within) {found : List Handle}
    (hfound : ∀ handle ∈ found, handle ∈ within) :
    ({ selection with matched := selection.matched ++ found } : Selection).Within within := by
  refine ⟨h.source, h.container, fun handle hmem => ?_⟩
  rcases List.mem_append.1 hmem with hold | hnew
  · exact h.matched handle hold
  · exact hfound handle hnew

section

variable {within : Set Handle} {forest : Forest} {selection : Selection}
  (hencloses : forest.Encloses within) (hsound : forest.Sound)

include hencloses hsound

theorem Selector.mem_of_mem_candidates (hselection : selection.Within within) {selector : Selector}
    {handle : Handle} (hmem : handle ∈ selector.candidates forest selection) : handle ∈ within := by
  have hholds := hencloses.holdsChildren hsound
  unfold candidates at hmem
  split at hmem
  · exact hselection.matched handle hmem
  · exact hholds _ hselection.container handle hmem
  · exact hholds.mem_of_mem_descendants (hholds _ hselection.container) hmem
  · rw [List.mem_singleton.1 hmem]
    exact hselection.source
  · rw [List.mem_singleton.1 hmem]
    exact hselection.container

theorem Selector.inside_of_mem_select (hselection : selection.Within within) (selector : Selector)
    {handle : Handle} (hmem : handle ∈ selector.select forest selection) :
    forest.Inside within handle := by
  obtain ⟨hcandidate, hknown⟩ := mem_candidates_of_mem_select hmem
  exact ⟨hknown, Selector.mem_of_mem_candidates hencloses hsound hselection hcandidate⟩

/-- The context of a rule lies in the territory of the card that the event comes from. -/
theorem Rule.within_of_gather {σ : Type} {toss : Float → StateM σ Bool} {chances : σ}
    {rule : Rule} {raised : Raised} {context : RuleContext}
    (hsource : forest.Inside within raised.source)
    (h : ((rule.gather toss forest raised).run chances).1 = some context) :
    context.selection.Within within ∧ forest.Inside within context.container := by
  have hcontainer := hencloses.containerOf hsound hsource rule.containerDistance
  have hreach := (Rule.reaches_of_run_gather h).2
  obtain ⟨matched, -, rfl⟩ := Option.map_eq_some_iff.1 h
  refine ⟨⟨hsource.2, hcontainer.2, fun handle hmem => ?_⟩, hcontainer⟩
  rcases (hreach handle hmem).2 with rfl | rfl | hbelow
  · exact hsource.2
  · exact hcontainer.2
  · exact (hencloses.holdsChildren hsound).mem_of_descends hcontainer.2 hbelow

end

namespace Engine

variable {within : Set Handle} {engine : Engine} {context : RuleContext}

/-! ## Effects -/

theorem Confined.inside_of_mem_selected (h : engine.Confined within)
    (hcontext : context.selection.Within within) {selector : Selector} {handle : Handle}
    (hmem : handle ∈ engine.selected selector context) : engine.forest.Inside within handle :=
  selector.inside_of_mem_select h.encloses h.linked.sound hcontext hmem

theorem detach_within (h : engine.Confined within) {child : Handle} (hchild : child ∈ within) :
    WorksWithin within engine (detach settleInside child false) := by
  have hstart := start_detach engine settleInside child false
  cases hdetach : engine.forest.detach? child false with
  | none =>
    rw [hdetach] at hstart
    exact .ofOk hstart h.deliver
  | some forest =>
    rw [hdetach] at hstart
    unfold Forest.detach? at hdetach
    split at hdetach
    next owner howner =>
      have hremoved := h.remove? hdetach hchild
      exact .ofOk hstart (hremoved.trans hremoved.confined.deliver)
    next => cases hdetach

theorem raise_within (h : engine.Confined within) {raised : Raised}
    (hsource : engine.forest.Inside within raised.source) :
    WorksWithin within engine (raise settleInside raised) := by
  have hstart := start_raise engine settleInside raised
  rw [if_pos hsource.1] at hstart
  have hemitted := h.emit raised.event hsource
  exact .ofOk hstart (hemitted.trans hemitted.confined.deliver)

/-- The card of a template is made and attached to the container. It came in after the container, so
nothing speaks against it. -/
theorem create_within (h : engine.Confined within)
    (hcontainer : engine.forest.Inside within context.container) (id : String) :
    WorksWithin within engine (do
      match ← createCard settleInside id with
      | some card => attach settleInside context.container card false
      | none => pure ()) := by
  obtain ⟨middle, hstart, hmiddle, hmade⟩ :=
    assemble_within settlesWithin_settleInside (partLimit + 1) id engine h
  unfold createCard
  cases hanswer : engine.maker.answer engine.forest.next (partLimit + 1) id with
  | error error =>
    rw [hanswer] at hstart
    refine ⟨.error error, middle, by rw [start_bind, hstart], hmiddle, fun other hother => ?_⟩
    cases hother
    unfold Factory.answer Factory.verdict at hanswer
    split at hanswer
    next part hexcess =>
      cases hanswer
      exact ⟨part, id, rfl, Factory.nests_of_excess? hexcess⟩
    next => cases hanswer
  | ok made =>
    rw [hanswer] at hstart
    cases made with
    | none => exact .ofOk (by rw [start_bind, hstart]; rfl) hmiddle
    | some made =>
      obtain ⟨rfl, -, -⟩ := Factory.answer_eq_some hanswer
      obtain ⟨card, hcard, howner, -⟩ := hmade _ hanswer
      have hnew := Forest.contains_next engine.forest
      obtain ⟨forest, after, hattach, hstart', hafter⟩ := exists_attach_within
        settlesWithin_settleInside hmiddle.confined hmiddle.grows h.linked.sound hcontainer hnew
        h.next_mem hcard howner false
      have hgrows := hmiddle.grows.attach hmiddle.confined.linked.sound hattach hcontainer.2
        h.next_mem hnew (by simp)
      refine .ofOk (by rw [start_bind, hstart]; exact hstart') ⟨hafter.confined,
        hgrows.trans hafter.grows, hafter.factory.trans hmiddle.factory⟩

/-- Every effect but a callback stays within the territory of its context. -/
theorem effect_within (invoke : Invoker) (h : engine.Confined within)
    (hcontext : context.selection.Within within)
    (hcontainer : engine.forest.Inside within context.container) {effect : Effect}
    (hplain : ∀ name, effect ≠ .invoke name) :
    WorksWithin within engine (effect.run invoke context) := by
  cases effect with
  | create templates count =>
    refine .goingOn (start_get_bind _ _) h.stays ?_
    by_cases hfactory : engine.factory.isSome = true
    · rw [if_pos hfactory]
      refine .forM h fun id _ here hhere => ?_
      refine .times hhere.confined (fun later hlater => ?_) count
      exact create_within hlater.confined (hcontainer.grow (hhere.trans hlater).grows) id
    · rw [if_neg hfactory]
      exact .ofOk rfl h.stays
  | remove selector =>
    refine .goingOn (start_get_bind _ _) h.stays (.forM h fun handle hmem here hhere => ?_)
    have hselected := h.inside_of_mem_selected hcontext hmem
    exact (detach_within hhere.confined hselected.2).map _
  | changeProperty selector name change =>
    exact .ofOk rfl (h.modifyCards (isEdit_changeProperties name change) fun handle hmem =>
      (h.inside_of_mem_selected hcontext hmem).2)
  | addTag selector tag =>
    simp only [Effect.run]
    by_cases htag : tag = ""
    · rw [if_pos htag]
      exact .ofOk rfl h.stays
    · rw [if_neg htag]
      exact .ofOk rfl (h.modifyCards (isEdit_addTag tag) fun handle hmem =>
        (h.inside_of_mem_selected hcontext hmem).2)
  | removeTag selector tag =>
    exact .ofOk rfl (h.modifyCards (isEdit_removeTag tag) fun handle hmem =>
      (h.inside_of_mem_selected hcontext hmem).2)
  | signal selector id payload =>
    refine .goingOn (start_get_bind _ _) h.stays (.forM h fun handle hmem here hhere => ?_)
    have hselected := h.inside_of_mem_selected hcontext hmem
    exact raise_within hhere.confined (hselected.grow hhere.grows)
  | invoke name => exact absurd rfl (hplain name)

/-! ## Rules and events -/

/-- What leaves cards, rules and queues alone stays within. -/
theorem Confined.staysOfQuiet {after : Engine} (h : engine.Confined within)
    (hcards : SameCards engine after) (hrules : after.rules = engine.rules)
    (hqueue : after.queue = engine.queue) (hdeferred : after.deferred = engine.deferred) :
    StaysWithin within engine after := by
  refine h.staysOfSame hcards hrules fun raised hmem => ?_
  unfold pending at hmem ⊢
  rw [hqueue, hdeferred, hcards.forest] at hmem
  exact hmem

theorem runMatch_within (invoke : Invoker) (h : engine.Confined within) {found : Match}
    (hrule : found.rule.IsDeclarative) (hcontext : found.context.selection.Within within)
    (hcontainer : engine.forest.Inside within found.context.container) :
    WorksWithin within engine (runMatch invoke found) := by
  have hfired : StaysWithin within engine
      (engine.record (.fired engine.depth found.context)) :=
    h.staysOfQuiet ⟨rfl, rfl, rfl⟩ rfl rfl rfl
  refine .goingOn (start_runMatch engine invoke found) hfired ?_
  refine .forM hfired.confined fun effect hmem here hhere => ?_
  refine effect_within invoke hhere.confined hcontext ?_ fun name heq => hrule name (heq ▸ hmem)
  exact hcontainer.grow (hfired.trans hhere).grows

theorem runMatches_within (invoke : Invoker) (h : engine.Confined within) {chosen : List Match}
    (hchosen : ∀ found ∈ chosen, found.rule.IsDeclarative ∧
      found.context.selection.Within within ∧
        engine.forest.Inside within found.context.container) :
    WorksWithin within engine (runMatches invoke chosen) := by
  induction chosen generalizing engine with
  | nil => exact .ofOk rfl h.stays
  | cons found rest ih =>
    obtain ⟨hrule, hcontext, hcontainer⟩ := hchosen found List.mem_cons_self
    unfold runMatches
    refine (runMatch_within invoke h hrule hcontext hcontainer).bind fun _ after hafter => ?_
    split
    · exact .ofOk rfl hafter.confined.stays
    · refine ih hafter.confined fun other hmem => ?_
      obtain ⟨hrule, hcontext, hcontainer⟩ := hchosen other (List.mem_cons_of_mem _ hmem)
      exact ⟨hrule, hcontext, hcontainer.grow hafter.grows⟩

theorem runRules_within (invoke : Invoker) (h : engine.Confined within) {raised : Raised}
    (hsource : engine.forest.Inside within raised.source) :
    WorksWithin within engine (runRules invoke raised) := by
  have hdrawn : StaysWithin within engine (engine.findMatches raised).2 :=
    h.staysOfQuiet ⟨rfl, rfl, rfl⟩ rfl rfl rfl
  refine .goingOn (start_runRules engine invoke raised) hdrawn ?_
  refine runMatches_within invoke hdrawn.confined fun found hmem => ?_
  obtain ⟨hrule, chances, hgathered⟩ := rule_mem_of_mem_choose engine raised hmem
  obtain ⟨hcontext, hcontainer⟩ :=
    Rule.within_of_gather h.encloses h.linked.sound hsource hgathered
  exact ⟨h.declarative found.rule hrule, hcontext, hcontainer⟩

theorem Confined.leave (h : engine.Confined within) : StaysWithin within engine engine.leave := by
  unfold Engine.leave
  split
  · refine h.staysOfSame ⟨rfl, rfl, rfl⟩ rfl fun raised hmem => ?_
    simpa [pending] using hmem
  · exact h.staysOfQuiet ⟨rfl, rfl, rfl⟩ rfl rfl rfl

theorem process_within (invoke : Invoker) (h : engine.Confined within) {raised : Raised}
    (hsource : engine.forest.Inside within raised.source) :
    WorksWithin within engine (process invoke raised) := by
  have hentered : StaysWithin within engine engine.enter :=
    h.staysOfQuiet ⟨rfl, rfl, rfl⟩ rfl rfl rfl
  refine .goingOn (start_process engine invoke raised) hentered ?_
  exact (runRules_within invoke hentered.confined hsource).thenAlways fun _ hafter => hafter.leave

/-! ## Pumps -/

theorem drain_within (invoke : Invoker) (h : engine.Confined within) (left count : Nat) :
    WorksWithin within engine (drain invoke left count) := by
  induction left generalizing engine count with
  | zero => exact .ofOk rfl h.stays
  | succ left ih =>
    cases hnext : engine.takeNext? with
    | none => exact .ofOk (start_drain_of_none engine invoke hnext) h.stays
    | some next =>
      obtain ⟨raised, taken⟩ := next
      obtain ⟨rest, hqueue, rfl⟩ := takeNext?_eq_some hnext
      have htaken : StaysWithin within engine
          ({ engine with queue := rest }.record (.taken raised)) := by
        refine h.staysOfSame ⟨rfl, rfl, rfl⟩ rfl fun other hmem => ?_
        unfold pending
        rw [hqueue]
        exact List.mem_cons_of_mem _ hmem
      have hsource : engine.forest.Inside within raised.source := by
        apply h.sources
        unfold pending
        rw [hqueue]
        exact List.mem_cons_self
      refine .goingOn (start_drain_of_some engine invoke hnext) htaken ?_
      refine (process_within invoke htaken.confined hsource).bind fun _ after hafter => ?_
      exact ih hafter.confined (count + 1)

theorem pump_within (invoke : Invoker) (h : engine.Confined within) (limit : Nat) :
    WorksWithin within engine (pump invoke limit) := by
  by_cases hidle : engine.isIdle = true
  · have hstarted : StaysWithin within engine { engine with pumping := true } :=
      h.staysOfQuiet ⟨rfl, rfl, rfl⟩ rfl rfl rfl
    refine .goingOn (start_pump_of_isIdle engine invoke limit hidle) hstarted ?_
    refine (drain_within invoke hstarted.confined limit 0).thenAlways fun after hafter => ?_
    exact hafter.staysOfQuiet ⟨rfl, rfl, rfl⟩ rfl rfl rfl
  · exact .ofOk (start_pump_of_not_isIdle engine invoke limit hidle) h.stays

/-- A pump on the engine's own account stays within, and settling does. -/
theorem settlesWithin_settle (invoke : Invoker) : SettlesWithin within (settle invoke) := by
  intro engine h
  have hdelivered := h.deliver
  rw [start_settle]
  by_cases hempty : engine.forest.outbox.isEmpty = true
  · exact ⟨engine, by rw [if_pos hempty], h.stays⟩
  · by_cases hpumps : (engine.deliver.config.autoPump && engine.deliver.isIdle) = true
    · rw [if_neg hempty, if_pos hpumps, start_pumpQuietly, start_pumpAll]
      obtain ⟨result, after, hstart, hafter, -⟩ :=
        pump_within invoke hdelivered.confined engine.deliver.config.maxEventsPerPump
      rw [hstart]
      cases result with
      | ok count => exact ⟨after, rfl, hdelivered.trans hafter⟩
      | error error =>
        have hkept : StaysWithin within after { after with pumpError := some error } :=
          hafter.confined.staysOfQuiet ⟨rfl, rfl, rfl⟩ rfl rfl rfl
        exact ⟨_, rfl, hdelivered.trans (hafter.trans hkept)⟩
    · exact ⟨engine.deliver, by rw [if_neg hempty, if_neg hpumps], hdelivered⟩

/-! ## The law -/

/-- What is done to an engine concerns some cards only: all others stay exactly as they are, with
the keys that they have, while those cards together with the new ones are a territory again, and all
events in the queue come from there. -/
structure Concerns (cards : Set Handle) (engine after : Engine) : Prop where
  others : ∀ handle, engine.forest.contains handle = true → handle ∉ cards →
    after.forest.get? handle = engine.forest.get? handle ∧
      after.registry.keyOf? handle = engine.registry.keyOf? handle
  territory : after.forest.Territory
    (cards ∪ {handle | engine.forest.contains handle = false ∧ after.forest.contains handle = true})
  queue : ∀ raised ∈ after.queue, raised.source ∈
    cards ∪ {handle | engine.forest.contains handle = false ∧ after.forest.contains handle = true}

variable {cards : Set Handle}

theorem Reachable.confined (h : engine.Reachable) (hrules : engine.Declarative)
    (hterritory : engine.forest.Territory cards)
    (hqueue : ∀ raised ∈ engine.queue, raised.source ∈ cards) :
    engine.Confined {handle | engine.forest.contains handle = true → handle ∈ cards} := by
  have hlinked := h.listed.linked
  have hrest := h.atRest
  refine ⟨hlinked, hrules, hterritory.encloses hlinked.sound, fun handle hnew => ?_,
    fun raised hmem => ?_⟩
  · intro hknown
    rw [hnew] at hknown
    cases hknown
  · unfold pending at hmem
    rw [hrest.deferred, hrest.outbox, List.append_nil, List.append_nil] at hmem
    have hsource := hqueue raised hmem
    exact ⟨hterritory.known raised.source hsource, fun _ => hsource⟩

/-- All cards together are a territory, and every event that waits comes from one of them. -/
theorem Reachable.confined_univ (h : engine.Reachable) (hrules : engine.Declarative) :
    engine.Confined Set.univ := by
  have hrest := h.atRest
  refine ⟨h.listed.linked, hrules, fun _ _ _ => Iff.rfl, fun _ _ => trivial, fun raised hmem => ?_⟩
  unfold pending at hmem
  rw [hrest.outbox, List.append_nil] at hmem
  exact ⟨h.knowsSources raised hmem, trivial⟩

theorem StaysWithin.concerns {after : Engine}
    (h : StaysWithin {handle | engine.forest.contains handle = true → handle ∈ cards} engine after)
    (hterritory : engine.forest.Territory cards) (hskeleton : KeepsSkeleton engine after) :
    Concerns cards engine after := by
  -- Among the cards that are there in the end, those within are the old ones and the new ones.
  have hcards : {handle | after.forest.Inside
      {handle | engine.forest.contains handle = true → handle ∈ cards} handle} =
        cards ∪ {handle | engine.forest.contains handle = false ∧
          after.forest.contains handle = true} := by
    ext handle
    constructor
    · rintro ⟨hknown, hin⟩
      cases hold : engine.forest.contains handle with
      | true => exact .inl (hin hold)
      | false => exact .inr ⟨hold, hknown⟩
    · rintro (hin | ⟨hnew, hknown⟩)
      · exact ⟨h.grows.contains (hterritory.known handle hin), fun _ => hin⟩
      · refine ⟨hknown, fun hold => ?_⟩
        rw [hnew] at hold
        cases hold
  refine ⟨fun handle hknown hout => ⟨?_, hskeleton.key handle hknown⟩, ?_, fun raised hmem => ?_⟩
  · exact h.grows.outside handle fun hin => hout (hin hknown)
  · rw [← hcards]
    exact h.confined.encloses.territory h.confined.linked.sound
  · rw [← hcards]
    apply h.confined.sources
    exact List.mem_append_left _ (List.mem_append_left _ hmem)

/-- Rules stay inside the trees that their events come from. In an engine that a program can come
to, with no callbacks in the rules, let a territory contain the source of every event in the queue.
Then every pump, and the processing of every event of the territory, has an outcome and concerns the
territory only. -/
theorem rules_stay_inside (hreachable : engine.Reachable) (hrules : engine.Declarative)
    (hterritory : engine.forest.Territory cards)
    (hqueue : ∀ raised ∈ engine.queue, raised.source ∈ cards) (invoke : Invoker) :
    (∀ limit, ∃ outcome after, (pump invoke limit).start engine = some (outcome, after) ∧
      Concerns cards engine after) ∧
      ∀ raised, raised.source ∈ cards →
        ∃ outcome after, (process invoke raised).start engine = some (outcome, after) ∧
          Concerns cards engine after := by
  have hlinked := hreachable.listed.linked
  have hconfined := hreachable.confined hrules hterritory hqueue
  refine ⟨fun limit => ?_, fun raised hin => ?_⟩
  · obtain ⟨outcome, after, hstart, hstays, -⟩ := pump_within invoke hconfined limit
    have hskeleton := (hrules.course_of_pump hstart).keepsSkeleton hlinked
    exact ⟨outcome, after, hstart, hstays.concerns hterritory hskeleton⟩
  · have hsource := hterritory.known raised.source hin
    obtain ⟨outcome, after, hstart, hstays, -⟩ :=
      process_within invoke hconfined ⟨hsource, fun _ => hin⟩
    have hskeleton := (hrules.course_of_process hstart).keepsSkeleton hlinked
    exact ⟨outcome, after, hstart, hstays.concerns hterritory hskeleton⟩

/-- A bench and a shelf are put up, and the bench is used; its use waits to be pumped, and lights a
torch there. -/
def kindling : Program Unit :=
  .perform (.addCard { id := "bench", category := .location }) fun _ =>
  .perform (.addCard { id := "shelf", category := .location }) fun _ =>
  .perform (.registerRule
    { name := "kindle", trigger := .use,
      effects := [.create ["torch"] 1, .addTag { scope := .children } "lit"] }) fun _ =>
  .perform (.raise ⟨⟨0⟩, .use⟩) fun _ => .done ()

theorem asksOnly_kindling : kindling.AsksOnly Operation.BringsFresh :=
  ⟨⟨rfl, rfl, rfl, rfl, rfl⟩, fun _ => ⟨⟨rfl, rfl, rfl, rfl, rfl⟩,
    fun _ => ⟨trivial, fun _ => ⟨trivial, fun _ => trivial⟩⟩⟩⟩

theorem exists_kindled :
    ∃ engine, run moving 0 kindling (new { autoPump := false } torches) = some (.ok (), engine) ∧
      engine.Reachable ∧ engine.Declarative := by
  have hfacts : (run moving 0 kindling (new { autoPump := false } torches)).map
      (fun (result, engine) => (result.isOk, decide engine.Declarative)) = some (true, true) := by
    decide +kernel
  obtain ⟨⟨result, engine⟩, hrun, hvalues⟩ := Option.map_eq_some_iff.1 hfacts
  simp only [Prod.mk.injEq, decide_eq_true_eq] at hvalues
  obtain ⟨hok, hrules⟩ := hvalues
  cases result with
  | error error => cases hok
  | ok value =>
    exact ⟨engine, hrun,
      reachable_of_run askOnly_moving asksOnly_kindling makesFresh_torches hrun, hrules⟩

theorem kindling_stays_inside :
    ∃ engine outcome after, engine.Reachable ∧ engine.Declarative ∧
      engine.forest.Territory {⟨0⟩} ∧ engine.queue.map (·.source) = [⟨0⟩] ∧
      (pump (invoker moving 0) 1).start engine = some (outcome, after) ∧
      after.forest.children ⟨0⟩ = [⟨2⟩] ∧ Concerns {⟨0⟩} engine after := by
  obtain ⟨engine, hrun, hreachable, hrules⟩ := exists_kindled
  have hfacts : ((run moving 0 kindling (new { autoPump := false } torches)).bind
      fun (_, engine) => ((pump (invoker moving 0) 1).start engine).map fun (_, after) =>
        ((engine.forest.contains ⟨0⟩, engine.forest.owner? ⟨0⟩, engine.forest.children ⟨0⟩),
          engine.queue.map (·.source), after.forest.children ⟨0⟩)) =
      some ((true, none, []), [⟨0⟩], [⟨2⟩]) := by
    decide +kernel
  rw [hrun] at hfacts
  obtain ⟨⟨outcome, after⟩, hpump, hvalues⟩ := Option.map_eq_some_iff.1 hfacts
  simp only [Prod.mk.injEq] at hvalues
  obtain ⟨⟨hknown, howner, hchildren⟩, hqueue, hafter⟩ := hvalues
  have hterritory : engine.forest.Territory {⟨0⟩} := by
    refine ⟨?_, ?_, ?_⟩
    · rintro handle rfl
      exact hknown
    · rintro child rfl owner hlink
      rw [howner] at hlink
      cases hlink
    · rintro parent rfl child hmem
      rw [hchildren] at hmem
      cases hmem
  have hsources : ∀ raised ∈ engine.queue, raised.source ∈ ({⟨0⟩} : Set Handle) := by
    intro raised hmem
    have hsource : raised.source ∈ engine.queue.map (·.source) := List.mem_map_of_mem hmem
    rw [hqueue] at hsource
    exact List.mem_singleton.1 hsource
  obtain ⟨hpumps, -⟩ := rules_stay_inside hreachable hrules hterritory hsources (invoker moving 0)
  obtain ⟨outcome', after', hpump', hconcerns⟩ := hpumps 1
  obtain ⟨rfl, rfl⟩ : outcome = outcome' ∧ after = after' := by
    simpa using hpump.symm.trans hpump'
  exact ⟨engine, outcome, after, hreachable, hrules, hterritory, hqueue, hpump, hafter, hconcerns⟩

end Engine

end CardRules
