import CardRules.Proofs.Confinement

/-!
Assembled cards stay whole. Rules without callbacks leave the skeleton of cards alone wherever they
run, also between the attachment of one part and of the next. So what comes of making a card is the
same with rules and without, and its built-in parts are those that the templates name.
-/

namespace CardRules.Engine

open EngineM

variable {within : Set Handle} {engine : Engine}

/-- However a computation ends, it leaves the skeleton of the engine alone. -/
def Spares {α : Type} (engine : Engine) (action : EngineM α) : Prop :=
  ∀ outcome after, action.start engine = some (outcome, after) → KeepsSkeleton engine after

/-- What makes an engine confined is not about there being rules. -/
theorem Confined.withoutRules (h : engine.Confined within) :
    { engine with rules := [] }.Confined within :=
  ⟨⟨h.linked.sound, h.linked.fresh⟩, fun _ hmem => absurd hmem List.not_mem_nil, h.encloses,
    h.upcoming, h.sources⟩

/-- What making a card answers depends on the factory alone, and what is made is assembled. -/
theorem createCard_within (invoke : Invoker) (h : engine.Confined within) (id : String) :
    ∃ after, (perform invoke (.createCard id)).start engine =
        some ((engine.maker.answer engine.forest.next (partLimit + 1) id).map Answer.card, after) ∧
      ∀ made, (engine.maker.answer engine.forest.next (partLimit + 1) id).map Answer.card =
        .ok (.card (some made)) → engine.maker.NamesCards →
          after.forest.Assembled engine.maker (partLimit + 1) id made := by
  obtain ⟨after, hstart, -, hmade⟩ :=
    assemble_within (settlesWithin_settle invoke) (partLimit + 1) id engine h
  refine ⟨after, ?_, fun made hanswer hnames => ?_⟩
  · unfold perform createCard
    rw [start_map, hstart]
    rfl
  · cases hcase : engine.maker.answer engine.forest.next (partLimit + 1) id with
    | error error =>
      rw [hcase] at hanswer
      cases hanswer
    | ok value =>
      rw [hcase] at hanswer
      cases hanswer
      obtain ⟨_, -, -, hassembled⟩ := hmade made hcase
      exact hassembled hnames

/-! ## The law -/

/-- Rules without callbacks cannot break what is built in. From an engine that a program can come
to, with no callbacks in the rules, an event that is processed, a pump, and a pump on the engine's
own account in the midst of an operation all leave the skeleton of every card alone. Making a card
of a catalog fails or not as it would without any rules, and the card that is made is assembled just
as the catalog says. -/
theorem declarative_rules_keep_cards_whole (hreachable : engine.Reachable)
    (hrules : engine.Declarative) (invoke : Invoker) :
    (∀ here, Course Operation.BringsFresh .acting engine here → here.Declarative →
      (∀ raised, here.Spares (process invoke raised)) ∧
        (∀ limit, here.Spares (pump invoke limit)) ∧ here.Spares (pumpQuietly invoke)) ∧
      ∀ catalog id, engine.factory = some (.ofCatalog catalog) →
        ∃ outcome after bare,
          (perform invoke (.createCard id)).start engine = some (outcome, after) ∧
          (perform invoke (.createCard id)).start { engine with rules := [] } =
            some (outcome, bare) ∧
          ∀ made, outcome = .ok (.card (some made)) →
            after.forest.Assembled (.ofCatalog catalog) (partLimit + 1) id made := by
  have hlinked := hreachable.listed.linked
  refine ⟨fun here hcourse hdeclarative => ?_, fun catalog id hfactory => ?_⟩
  · have hhere : here.SoundlyLinked := hcourse.keeps soundlyLinked_stays hlinked
    refine ⟨fun raised _ _ hstart => ?_, fun limit _ _ hstart => ?_, fun _ _ hstart => ?_⟩
    · exact (hdeclarative.course_of_process hstart).keepsSkeleton hhere
    · exact (hdeclarative.course_of_pump hstart).keepsSkeleton hhere
    · exact (hdeclarative.course_of_pumpQuietly hstart).keepsSkeleton hhere
  · have hconfined := hreachable.confined_univ hrules
    have hmaker : engine.maker = .ofCatalog catalog := by simp [maker, hfactory]
    obtain ⟨after, hstart, hmade⟩ := createCard_within invoke hconfined id
    obtain ⟨bare, hbare, -⟩ := createCard_within invoke hconfined.withoutRules id
    refine ⟨_, after, bare, hstart, hbare, fun made hanswer => ?_⟩
    rw [← hmaker]
    apply hmade made hanswer
    rw [hmaker]
    exact Factory.namesCards_ofCatalog catalog

/-- Lamps, made of a flame and of a glass; there is no template for oil. -/
def lamps : Catalog := .ofList [
  { id := "lamp", category := .item, parts := ["flame", "oil", "glass"] },
  { id := "flame", category := .item }, { id := "glass", category := .item }]

/-- Whenever a part is attached, a rule tries to take its neighbours away and lights the whole. -/
def fitting : Program Unit :=
  .perform (.registerRule
    { name := "fit", trigger := .added, containerDistance := 1,
      effects := [.remove { scope := .children }, .addTag { scope := .container } "lit"] })
    fun _ => .done ()

theorem asksOnly_fitting : fitting.AsksOnly Operation.BringsFresh := ⟨trivial, fun _ => trivial⟩

theorem lamps_stay_whole :
    ∃ engine made after, engine.Reachable ∧ engine.Declarative ∧ engine.config.autoPump = true ∧
      (perform (invoker moving 0) (.createCard "lamp")).start engine =
        some (.ok (.card (some made)), after) ∧
      (after.forest.get? made).any (·.hasTag "lit") = true ∧
      after.forest.Assembled (.ofCatalog lamps) (partLimit + 1) "lamp" made := by
  have hfacts : (run moving 0 fitting (new {} (some (.ofCatalog lamps)))).bind
      (fun (result, engine) =>
        ((perform (invoker moving 0) (.createCard "lamp")).start engine).map fun (outcome, after) =>
          (result.isOk, decide engine.Declarative, engine.config.autoPump,
            match outcome with
            | .ok (.card found) => found.any fun made =>
              (after.forest.get? made).any (·.hasTag "lit")
            | _ => false)) =
      some (true, true, true, true) := by
    decide +kernel
  have hfactory : (run moving 0 fitting (new {} (some (.ofCatalog lamps)))).map
      (fun (_, engine) => engine.factory) = some (some (.ofCatalog lamps)) := rfl
  obtain ⟨⟨result, engine⟩, hrun, hmore⟩ := Option.bind_eq_some_iff.1 hfacts
  obtain ⟨⟨outcome, after⟩, hstart, hvalues⟩ := Option.map_eq_some_iff.1 hmore
  simp only [Prod.mk.injEq, decide_eq_true_eq] at hvalues
  obtain ⟨hok, hrules, hpumps, hlit⟩ := hvalues
  have hreachable : engine.Reachable := by
    apply reachable_of_isOk askOnly_moving asksOnly_fitting ?_ hrun hok
    intro factory hmade
    cases hmade
    exact Factory.makesFresh_ofCatalog lamps
  have hknown : engine.factory = some (.ofCatalog lamps) := by
    rw [hrun] at hfactory
    simpa using hfactory
  obtain ⟨-, hcreates⟩ := declarative_rules_keep_cards_whole hreachable hrules (invoker moving 0)
  obtain ⟨outcome', after', -, hstart', -, hassembled⟩ := hcreates lamps "lamp" hknown
  obtain ⟨rfl, rfl⟩ : outcome = outcome' ∧ after = after' := by
    simpa using hstart.symm.trans hstart'
  -- What is answered is a card, or else nothing would be lit.
  split at hlit
  next found =>
    cases found with
    | none => cases hlit
    | some made =>
      exact ⟨engine, made, after, hreachable, hrules, hpumps, hstart, hlit, hassembled made rfl⟩
  next => cases hlit

end CardRules.Engine
