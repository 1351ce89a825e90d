import CardRules.Proofs.Confinement
import CardRules.Proofs.Forest.Agreement

/-!
Local rules: they draw no chances and ask no predicates, they make no cards and run no callbacks.
What a local rule gathers for an event is read off the tree that the event comes from, so it is the
same in every forest that agrees on that tree; and nothing is drawn from the generator for it.
-/

namespace CardRules

open EngineM

/-- Whether a requirement looks at selected cards only: it is neither a chance nor a predicate,
under any number of negations. -/
def Requirement.isLocal : Requirement → Bool
  | .select .. | .property .. => true
  | .chance _ | .predicate _ => false
  | .not requirement => requirement.isLocal

/-- Whether an effect acts on selected cards only: it makes no cards and runs no callback. -/
def Effect.isLocal : Effect → Bool
  | .create .. | .invoke _ => false
  | _ => true

/-- Whether all requirements and effects of a rule are local. -/
def Rule.isLocal (rule : Rule) : Bool :=
  rule.requirements.all (·.isLocal) && rule.effects.all (·.isLocal)

theorem Rule.isLocal_iff {rule : Rule} :
    rule.isLocal = true ↔ (∀ requirement ∈ rule.requirements, requirement.isLocal = true) ∧
      ∀ effect ∈ rule.effects, effect.isLocal = true := by
  unfold isLocal
  rw [Bool.and_eq_true, List.all_eq_true, List.all_eq_true]

/-- Local rules draw no chances. -/
theorem Rule.isCertain_of_isLocal {rule : Rule} (h : rule.isLocal = true) :
    rule.isCertain = true := by
  refine List.all_eq_true.2 fun requirement hmem => ?_
  have hlocal := (Rule.isLocal_iff.1 h).1 requirement hmem
  clear hmem
  induction requirement with
  | select | property => rfl
  | chance | predicate => cases hlocal
  | not requirement ih => exact ih hlocal

/-- All rules of an engine are local. -/
def Engine.Local (engine : Engine) : Prop := ∀ rule ∈ engine.rules, rule.isLocal = true

instance (engine : Engine) : Decidable engine.Local :=
  inferInstanceAs (Decidable (∀ rule ∈ engine.rules, rule.isLocal = true))

/-! ## What is selected -/

section

variable {within : Set Handle} {forest other : Forest} {selection : Selection}
  (hagree : Forest.Agree within forest other) (hencloses : forest.Encloses within)
  (hsound : forest.Sound) (hselection : selection.Within within)

include hagree hencloses hsound hselection

theorem Selector.candidates_congr (selector : Selector) :
    selector.candidates other selection = selector.candidates forest selection := by
  unfold candidates
  rw [hagree.children_eq hselection.container,
    hagree.descendants_eq (hencloses.holdsChildren hsound) hselection.container]

theorem Selector.select_congr (selector : Selector) :
    selector.select other selection = selector.select forest selection := by
  have hadmitted : (selector.candidates other selection).filter (selector.admits other) =
      (selector.candidates forest selection).filter (selector.admits forest) := by
    rw [selector.candidates_congr hagree hencloses hsound hselection]
    refine List.filter_congr fun handle hmem => ?_
    unfold admits
    rw [hagree.cards handle (Selector.mem_of_mem_candidates hencloses hsound hselection hmem)]
  unfold select
  rw [hadmitted]

/-! ## What is gathered -/

variable {σ : Type} {toss : Float → StateM σ Bool} {chances : σ} {requirement : Requirement}

theorem Requirement.evaluate_congr (hlocal : requirement.isLocal = true) :
    requirement.evaluate toss other selection = requirement.evaluate toss forest selection := by
  induction requirement with
  | select selector min max collect =>
    unfold evaluate
    rw [selector.select_congr hagree hencloses hsound hselection]
  | property selector name comparison bound =>
    have hpassing : (selector.select forest selection).filter
          (propertyHolds other name comparison bound) =
        (selector.select forest selection).filter
          (propertyHolds forest name comparison bound) := by
      refine List.filter_congr fun handle hmem => ?_
      unfold propertyHolds
      rw [hagree.cards handle (selector.inside_of_mem_select hencloses hsound hselection hmem).2]
    unfold evaluate
    rw [selector.select_congr hagree hencloses hsound hselection, hpassing]
  | chance | predicate => cases hlocal
  | not requirement ih =>
    unfold evaluate
    rw [ih hlocal]

variable {requirements : List Requirement}

theorem Rule.run_gatherMatched_congr
    (hlocal : ∀ requirement ∈ requirements, requirement.isLocal = true) :
    (gatherMatched toss other selection requirements).run chances =
      (gatherMatched toss forest selection requirements).run chances := by
  induction requirements generalizing selection chances with
  | nil => rfl
  | cons requirement rest ih =>
    rw [run_gatherMatched_cons, run_gatherMatched_cons,
      requirement.evaluate_congr hagree hencloses hsound hselection
        (hlocal requirement List.mem_cons_self)]
    rcases hfound : (requirement.evaluate toss forest selection).run chances with
      ⟨_ | found, later⟩
    · rfl
    · have hjoined := hselection.joined fun _ hmem => requirement.mem_of_run_evaluate
        (fun selector _ hmem => (selector.inside_of_mem_select hencloses hsound hselection hmem).2)
        (congrArg Prod.fst hfound) hmem
      exact ih hjoined fun other hmem => hlocal other (List.mem_cons_of_mem _ hmem)

end

section

variable {within : Set Handle} {forest other : Forest} {raised : Raised}
  {σ : Type} {toss : Float → StateM σ Bool} {chances : σ}

variable (hagree : Forest.Agree within forest other) (hencloses : forest.Encloses within)
  (hsound : forest.Sound) (hsource : forest.Inside within raised.source)

include hagree hencloses hsound hsource

theorem Rule.run_gather_congr {rule : Rule} (hlocal : rule.isLocal = true) :
    (rule.gather toss other raised).run chances =
      (rule.gather toss forest raised).run chances := by
  have hcontainer := hencloses.containerOf hsound hsource rule.containerDistance
  have hselection : (⟨raised.source, forest.containerOf raised.source rule.containerDistance, [],
      rule.maxDepth⟩ : Selection).Within within :=
    ⟨hsource.2, hcontainer.2, fun _ hmem => by cases hmem⟩
  unfold gather
  simp only [hagree.containerOf_eq hencloses hsource.2, StateT.run_bind]
  rw [Rule.run_gatherMatched_congr hagree hencloses hsound hselection
    (Rule.isLocal_iff.1 hlocal).1]

theorem Match.run_gatherAll_congr {rules : List Rule}
    (hlocal : ∀ rule ∈ rules, rule.isLocal = true) :
    (gatherAll toss other raised rules).run chances =
      (gatherAll toss forest raised rules).run chances := by
  induction rules generalizing chances with
  | nil => rfl
  | cons rule rest ih =>
    simp only [run_gatherAll_cons,
      Rule.run_gather_congr hagree hencloses hsound hsource (hlocal rule List.mem_cons_self),
      ih fun other hmem => hlocal other (List.mem_cons_of_mem _ hmem)]

end

namespace Engine

variable {within : Set Handle} {engine other : Engine}

theorem Local.candidates (h : engine.Local) (event : Event) :
    ∀ rule ∈ engine.candidates event, rule.isLocal = true :=
  fun rule hmem => h rule (List.mem_of_mem_filter (List.mem_of_mem_filter hmem))

/-- Local rules are matched without any change. -/
theorem Local.snd_findMatches (h : engine.Local) (raised : Raised) :
    (engine.findMatches raised).2 = engine := by
  rw [findMatches_eq]
  have hdrawn : engine.generatorAfter raised engine.rules = engine.generator :=
    Rule.chancesAfter_eq (fun rule hmem => Rule.isCertain_of_isLocal (h rule hmem)) _
  rw [hdrawn]

/-- Local rules find the same matches in engines that agree on the tree of an event. -/
theorem Local.fst_findMatches_congr (h : engine.Local)
    (hagree : Forest.Agree within engine.forest other.forest)
    (hencloses : engine.forest.Encloses within) (hsound : engine.forest.Sound) {raised : Raised}
    (hsource : engine.forest.Inside within raised.source) (hrules : other.rules = engine.rules)
    (hgenerator : other.generator = engine.generator) :
    (other.findMatches raised).1 = (engine.findMatches raised).1 := by
  have hcandidates : other.candidates raised.event = engine.candidates raised.event := by
    unfold Engine.candidates rulesFor
    rw [hrules]
  show ((Match.gatherAll Random.Generator.chance other.forest raised
    (other.candidates raised.event)).run other.generator).1 = _
  rw [hcandidates, hgenerator, Match.run_gatherAll_congr hagree hencloses hsound hsource
    (h.candidates raised.event)]
  rfl

end Engine

end CardRules
