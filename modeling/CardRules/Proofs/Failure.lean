import CardRules.Proofs.Confinement

/-!
What can fail without callbacks: nothing but the making of cards whose parts nest too deep. Effects
act on cards of the forest only, and what they attach has just come in, so no error of the links is
ever met.
-/

namespace CardRules.Engine

open EngineM

variable {engine : Engine}

/-- Some card that the factory makes has parts that nest deeper than is allowed. -/
def Overgrown (engine : Engine) : Prop :=
  ∃ factory id, engine.factory = some factory ∧ factory.Nests (partLimit + 1) id

theorem Excuses.overgrown {error : Error} (h : engine.Excuses error) :
    engine.Overgrown ∧ ∃ fault, error = .invalidTemplate fault := by
  obtain ⟨part, id, rfl, hnests⟩ := h
  refine ⟨?_, _, rfl⟩
  unfold maker at hnests
  cases hfactory : engine.factory with
  | some factory => exact ⟨factory, id, hfactory, by simpa [hfactory] using hnests⟩
  | none =>
    -- Without a factory nothing is known, and so nothing nests.
    rw [hfactory] at hnests
    have hknown := hnests.1
    simp [Factory.knows] at hknown

/-- What can come of a computation of an engine: a value, or an error about a template, which takes
parts that nest too deep. -/
theorem outcome_of_worksWithin {α : Type} {action : EngineM α}
    (h : WorksWithin Set.univ engine action) :
    ∃ outcome after, action.start engine = some (outcome, after) ∧
      ((∃ value, outcome = .ok value) ∨ ∃ fault, outcome = .error (.invalidTemplate fault)) ∧
      (¬ engine.Overgrown → ∃ value, outcome = .ok value) := by
  obtain ⟨outcome, after, hstart, -, herrors⟩ := h
  refine ⟨outcome, after, hstart, ?_⟩
  cases outcome with
  | ok value => exact ⟨.inl ⟨value, rfl⟩, fun _ => ⟨value, rfl⟩⟩
  | error error =>
    obtain ⟨hovergrown, fault, rfl⟩ := (herrors error rfl).overgrown
    exact ⟨.inr ⟨fault, rfl⟩, fun hsmall => absurd hovergrown hsmall⟩

/-! ## The law -/

/-- Rules without callbacks never fail for lack of anything to do. In an engine that a program can
come to, with no callbacks in the rules, every event of a known card can be processed, and every
pump ends; if one of them fails, it is for a template whose parts nest too deep. If there is no such
template they do not fail, and a pump takes as many events as it may or comes to the end of the
queue. -/
theorem declarative_rules_fail_for_parts_only (hreachable : engine.Reachable)
    (hrules : engine.Declarative) (invoke : Invoker) :
    (∀ raised, engine.forest.contains raised.source = true →
      ∃ outcome after, (process invoke raised).start engine = some (outcome, after) ∧
        (outcome = .ok () ∨ ∃ fault, outcome = .error (.invalidTemplate fault)) ∧
        (¬ engine.Overgrown → outcome = .ok ())) ∧
      ∀ limit, ∃ outcome after, (pump invoke limit).start engine = some (outcome, after) ∧
        ((∃ count, outcome = .ok count) ∨ ∃ fault, outcome = .error (.invalidTemplate fault)) ∧
        (¬ engine.Overgrown →
          ∃ count, outcome = .ok count ∧ (count = limit ∨ after.queue = [])) := by
  have hconfined := hreachable.confined_univ hrules
  refine ⟨fun raised hknown => ?_, fun limit => ?_⟩
  · obtain ⟨outcome, after, hstart, hcases, hok⟩ :=
      outcome_of_worksWithin (process_within invoke hconfined ⟨hknown, trivial⟩)
    refine ⟨outcome, after, hstart, ?_, fun hsmall => ?_⟩
    · exact hcases.imp (fun ⟨_, hvalue⟩ => hvalue) id
    · obtain ⟨_, hvalue⟩ := hok hsmall
      exact hvalue
  · obtain ⟨outcome, after, hstart, hcases, hok⟩ :=
      outcome_of_worksWithin (pump_within invoke hconfined limit)
    refine ⟨outcome, after, hstart, hcases, fun hsmall => ?_⟩
    obtain ⟨count, rfl⟩ := hok hsmall
    have hidle : engine.isIdle = true := by
      unfold isIdle
      rw [hreachable.atRest.pumping, hreachable.atRest.depth]
      rfl
    exact ⟨count, rfl, pump_eq_ok hidle hstart⟩

/-- Parts of torches nest one level deep. -/
theorem not_nests_torches (id : String) : ¬ torches.Nests (partLimit + 1) id := by
  -- Only the torch has parts, and its part has none.
  have hflame : ∀ levels, ¬ torches.Nests (levels + 1) "flame" := by
    rintro levels ⟨-, part, hmem, -⟩
    simp [torches, Factory.ofCatalog, Catalog.ofList, Catalog.find?_add] at hmem
  rintro ⟨-, part, hmem, hdeep⟩
  have hpart : part = "flame" := by
    by_cases htorch : id = "torch" <;> by_cases hflame : id = "flame" <;>
      simp_all [torches, Factory.ofCatalog, Catalog.ofList, Catalog.find?_add]
  subst hpart
  exact hflame _ hdeep

theorem kindling_does_not_fail :
    ∃ engine count after, engine.Reachable ∧ engine.Declarative ∧ ¬ engine.Overgrown ∧
      (pump (invoker moving 0) 5).start engine = some (.ok count, after) ∧ after.queue = [] := by
  obtain ⟨engine, hrun, hreachable, hrules⟩ := exists_kindled
  have hfacts : ((run moving 0 kindling (new { autoPump := false } torches)).bind
      fun (_, engine) => ((pump (invoker moving 0) 5).start engine).map fun (_, after) =>
        after.queue.isEmpty) = some true := by
    decide +kernel
  have hfactory : (run moving 0 kindling (new { autoPump := false } torches)).map
      (fun (_, engine) => engine.factory) = some (some torches) := rfl
  rw [hrun] at hfacts hfactory
  obtain ⟨⟨outcome, after⟩, hpump, hempty⟩ := Option.map_eq_some_iff.1 hfacts
  have hsmall : ¬ engine.Overgrown := by
    rintro ⟨factory, id, hfound, hnests⟩
    obtain rfl : torches = factory := by
      simpa [hfound, eq_comm] using hfactory
    exact not_nests_torches id hnests
  obtain ⟨-, hpumps⟩ := declarative_rules_fail_for_parts_only hreachable hrules (invoker moving 0)
  obtain ⟨outcome', after', hpump', -, hok⟩ := hpumps 5
  obtain ⟨count, rfl, -⟩ := hok hsmall
  obtain ⟨rfl, rfl⟩ : outcome = .ok count ∧ after = after' := by
    simpa using hpump.symm.trans hpump'
  exact ⟨engine, count, after, hreachable, hrules, hsmall, hpump, by simpa using hempty⟩

end CardRules.Engine
