import CardRules.Proofs.Declarative
import CardRules.Proofs.Guises
import Mathlib

/-!
Where priorities decide which rule runs first, and no two rules for one kind of event have the same
priority, it makes no difference in which order the rules were registered. The rules that match an
event are the same in any order of the table if they draw no chances, and sorting them by priority
leaves only one order for them to run in.
-/

namespace CardRules

open EngineM

namespace Engine

/-! ## Ranks -/

/-- A rule of the table matches an event. -/
structure Matches (engine : Engine) (raised : Raised) (found : Match) : Prop where
  listed : found.rule ∈ engine.rules
  reacts : found.rule.reacts raised.event = true
  gathers : ((found.rule.gather Random.Generator.chance engine.forest raised).run
    engine.generator).1 = some found.context

/-- Priorities are enough to tell rules apart: those with the same trigger and the same priority
have the same name. And none of the rules draws a chance. -/
structure PrioritiesDecide (rules : List Rule) : Prop where
  certain : ∀ rule ∈ rules, rule.isCertain = true
  apart : ∀ first ∈ rules, ∀ second ∈ rules, first.trigger = second.trigger →
    first.priority = second.priority → first.name = second.name

theorem PrioritiesDecide.mono {rules known : List Rule} (h : PrioritiesDecide known)
    (hknown : ∀ rule ∈ rules, rule ∈ known) : PrioritiesDecide rules where
  certain rule hmem := h.certain rule (hknown rule hmem)
  apart first hfirst second hsecond := h.apart first (hknown first hfirst) second
    (hknown second hsecond)

/-- An engine whose rules run in the order of their priorities, which are enough for that. -/
structure Ranked (engine : Engine) : Prop where
  order : engine.config.ruleOrder = .priority
  names : (engine.rules.map (·.name)).Nodup
  decide : PrioritiesDecide engine.rules

namespace Ranked

variable {engine other : Engine} (h : engine.Ranked)

include h

theorem priority_lt {raised : Raised} {first second : Placed} (hfirst : engine.Finds raised first)
    (hsecond : engine.Finds raised second)
    (hbefore : engine.config.ruleOrder.Before first second) :
    first.rule.priority < second.rule.priority := by
  rw [h.order] at hbefore
  rcases hbefore with hless | ⟨hequal, hplace⟩
  · exact hless
  · -- With the same priority they would stand at the same place.
    have hname := h.decide.apart _ (List.mem_of_getElem? hfirst.stands) _
      (List.mem_of_getElem? hsecond.stands) (hfirst.trigger.trans hsecond.trigger.symm) hequal
    have hstands : (engine.rules.map (·.name))[first.place]? = some first.rule.name := by
      rw [List.getElem?_map, hfirst.stands]
      rfl
    have hstands' : (engine.rules.map (·.name))[second.place]? = some second.rule.name := by
      rw [List.getElem?_map, hsecond.stands]
      rfl
    have hbound : first.place < (engine.rules.map (·.name)).length :=
      (List.getElem?_eq_some_iff.1 hstands).1
    have hsame : first.place = second.place :=
      (List.getElem?_inj hbound h.names).1 (by rw [hstands, hstands', hname])
    omega

/-- The rules that run for an event are those that match it, by priority. -/
theorem exists_byPriority (raised : Raised) :
    ∃ found : List Match, found.Pairwise (·.rule.priority < ·.rule.priority) ∧
      (∀ match', match' ∈ found ↔ engine.Matches raised match') ∧
      engine.config.choose (engine.findMatches raised).1 =
        engine.config.execution.limit found := by
  obtain ⟨placed, hordered, hmem, hchosen⟩ := exists_inOrder engine raised
  refine ⟨placed.map (·.toMatch), List.pairwise_map.2 ?_, fun found => ?_, hchosen⟩
  · refine hordered.imp_of_mem fun {first second} hfirst hsecond hbefore => ?_
    exact h.priority_lt ((hmem first).1 hfirst) ((hmem second).1 hsecond) hbefore
  · rw [List.mem_map]
    constructor
    · rintro ⟨placed, hplaced, rfl⟩
      have hfinds := (hmem placed).1 hplaced
      have hlisted := List.mem_of_getElem? hfinds.stands
      refine ⟨hlisted, ?_, ?_⟩
      · simp [Rule.reacts, hfinds.trigger, hfinds.accepts]
      · rw [Rule.run_gather_eq (h.decide.certain _ hlisted)]
        exact hfinds.gathers
    · intro hmatches
      obtain ⟨place, hstands⟩ := List.mem_iff_getElem?.1 hmatches.listed
      refine ⟨⟨found, place⟩, (hmem _).2 ⟨hstands, ?_, ?_, ?_⟩, rfl⟩
      · have hreacts := hmatches.reacts
        simp only [Rule.reacts, Bool.and_eq_true, decide_eq_true_eq] at hreacts
        exact hreacts.1
      · have hreacts := hmatches.reacts
        simp only [Rule.reacts, Bool.and_eq_true, decide_eq_true_eq] at hreacts
        exact hreacts.2
      · rw [Rule.run_gather_eq (h.decide.certain _ hmatches.listed) engine.generator]
        exact hmatches.gathers

/-- The same rules are chosen for an event, and in the same order, if the table holds the same rules
in any order. -/
theorem choose_eq (h' : other.Ranked) (hforest : other.forest = engine.forest)
    (hgenerator : other.generator = engine.generator) (hconfig : other.config = engine.config)
    (hrules : ∀ rule, rule ∈ other.rules ↔ rule ∈ engine.rules) (raised : Raised) :
    other.config.choose (other.findMatches raised).1 =
      engine.config.choose (engine.findMatches raised).1 := by
  obtain ⟨found, hordered, hmem, hchosen⟩ := h.exists_byPriority raised
  obtain ⟨found', hordered', hmem', hchosen'⟩ := h'.exists_byPriority raised
  have hmatches (found : Match) : other.Matches raised found ↔ engine.Matches raised found := by
    constructor
    · rintro ⟨hlisted, hreacts, hgathers⟩
      rw [hforest, hgenerator] at hgathers
      exact ⟨(hrules _).1 hlisted, hreacts, hgathers⟩
    · rintro ⟨hlisted, hreacts, hgathers⟩
      rw [← hforest, ← hgenerator] at hgathers
      exact ⟨(hrules _).2 hlisted, hreacts, hgathers⟩
  -- Both lists are sorted by priority and have the same members, so they are the same.
  have hsame : found' = found := by
    refine List.Pairwise.eq_of_mem_iff hordered' hordered fun match' => ?_
    rw [hmem, hmem', hmatches]
  rw [hchosen, hchosen', hsame, hconfig]

/-- Nothing is drawn for an event. -/
theorem snd_findMatches (raised : Raised) : (engine.findMatches raised).2 = engine := by
  rw [findMatches_eq]
  have hdrawn : engine.generatorAfter raised engine.rules = engine.generator :=
    Rule.chancesAfter_eq h.decide.certain _
  rw [hdrawn]

end Ranked

/-! ## Tables in another order -/

/-- The second engine is the first, with the same rules in another order. -/
def Reorders (engine other : Engine) : Prop :=
  ∃ rules : List Rule, rules.Perm engine.rules ∧ other = { engine with rules }

/-- Two engines with the same rules in other orders, all of them known, and priorities decide. -/
structure Reordered (known : List Rule) (engine other : Engine) : Prop where
  reorders : Reorders engine other
  order : engine.config.ruleOrder = .priority
  names : (engine.rules.map (·.name)).Nodup
  known : ∀ rule ∈ engine.rules, rule ∈ known

section

variable {known : List Rule} {engine other : Engine} {left right : Invoker}

theorem Reordered.change (h : Reordered known engine other) (change : Engine → Engine)
    (hchange : SeesThrough change) : Reordered known (change engine) (change other) := by
  obtain ⟨⟨rules, hperm, rfl⟩, horder, hnames, hknown⟩ := h
  have hrules := hchange.rules_eq engine
  refine ⟨⟨rules, hrules ▸ hperm, ?_⟩, ?_, hrules ▸ hnames, hrules ▸ hknown⟩
  · refine (hchange engine engine.config rules engine.pumpError).trans ?_
    rw [← hchange.config_eq engine, ← hchange.pumpError_eq engine]
    rfl
  · rw [hchange.config_eq, horder]

theorem Reordered.ranked (h : Reordered known engine other) (hdecide : PrioritiesDecide known) :
    engine.Ranked :=
  ⟨h.order, h.names, hdecide.mono h.known⟩

theorem Reordered.ranked_other (h : Reordered known engine other)
    (hdecide : PrioritiesDecide known) : other.Ranked := by
  obtain ⟨⟨rules, hperm, rfl⟩, horder, hnames, hknown⟩ := h
  have hknown' : ∀ rule ∈ rules, rule ∈ known := fun rule hmem => hknown rule (hperm.mem_iff.1 hmem)
  exact ⟨horder, ((hperm.map _).nodup_iff).2 hnames, hdecide.mono hknown'⟩

theorem guises_reordered (hdecide : PrioritiesDecide known) : Guises (Reordered known) where
  guise h := by
    obtain ⟨⟨rules, -, rfl⟩, -, -, -⟩ := h
    exact ⟨_, rules, _, rfl⟩
  change h change hchange _ := h.change change hchange
  matched {engine other} h raised := by
    have hranked := h.ranked hdecide
    have hranked' := h.ranked_other hdecide
    rw [hranked.snd_findMatches, hranked'.snd_findMatches]
    obtain ⟨⟨rules, hperm, rfl⟩, -, -, -⟩ := h
    exact ⟨hranked.choose_eq hranked' rfl rfl rfl (fun _ => hperm.mem_iff) raised, rfl⟩

theorem synchrony_reordered (hdecide : PrioritiesDecide known) :
    Synchrony (Reordered known) (Reordered known) := by
  refine (guises_reordered hdecide).synchrony (guises_reordered hdecide)
    (fun _ _ h => h.change enter fun _ _ _ _ => rfl)
    (fun _ _ h => h.change leave seesThrough_leave) fun _ _ h => ?_
  obtain ⟨⟨_, -, rfl⟩, -, -, -⟩ := h
  rfl

theorem Reordered.withPumpError (h : Reordered known engine other) (pumpError : Option Error) :
    Reordered known { engine with pumpError } { other with pumpError } := by
  obtain ⟨⟨rules, hperm, rfl⟩, horder, hnames, hknown⟩ := h
  exact ⟨⟨rules, hperm, rfl⟩, horder, hnames, hknown⟩

/-- A known rule is accepted into both tables or into none. -/
theorem mirrors_addRule_reordered {rule : Rule} (hknown : rule ∈ known) :
    Mirrors (Reordered known) (addRule rule) (addRule rule) := by
  refine mirrors_addRule (fun engine other h => ?_) fun engine other h hfresh => ?_
  · obtain ⟨⟨rules, hperm, rfl⟩, -, -, -⟩ := h
    exact hperm.any_eq
  · obtain ⟨⟨rules, hperm, rfl⟩, horder, hnames, hlisted⟩ := h
    refine ⟨⟨rules ++ [rule], hperm.append_right [rule], rfl⟩, horder, ?_, fun other hmem => ?_⟩
    · rw [List.map_append, List.nodup_append]
      refine ⟨hnames, List.nodup_singleton _, fun name hname name' hname' => ?_⟩
      obtain ⟨other, hmem, rfl⟩ := List.mem_map.1 hname
      have hother := List.any_eq_false.1 hfresh other hmem
      simp only [List.map_cons, List.map_nil, List.mem_singleton] at hname'
      simpa [hname'] using hother
    · rcases List.mem_append.1 hmem with hold | hnew
      · exact hlisted other hold
      · exact List.mem_singleton.1 hnew ▸ hknown

/-- Operations that register known rules only do the same to both engines. -/
theorem mirrors_perform_reordered (hdecide : PrioritiesDecide known)
    (hdeclarative : ∀ rule ∈ known, rule.IsDeclarative) {operation : Operation}
    (hknown : ∀ rule ∈ operation.rules, rule ∈ known) :
    Mirrors (Reordered known) (perform left operation) (perform right operation) := by
  have hguises := guises_reordered hdecide
  have hsync := synchrony_reordered hdecide
  have hinvoke : CallbacksMirror (Reordered known) left right :=
    fun engine other h rule hmem name hname =>
      absurd hname (hdeclarative rule (h.known rule hmem) name)
  refine hguises.perform hsync hinvoke (fun _ => ?_)
    (fun rule hmem => mirrors_addRule_reordered (hknown rule hmem)) fun _ engine other h => ?_
  · refine hguises.settle hsync hinvoke (fun engine other h => ?_)
      fun engine other pumpError h => h.withPumpError pumpError
    obtain ⟨⟨_, -, rfl⟩, -, -, -⟩ := h
    rfl
  · have hafter := h.withPumpError none
    obtain ⟨⟨rules, -, rfl⟩, -, -, -⟩ := h
    exact .ended (.ok (Answer.failure engine.pumpError)) hafter

end

/-- Where priorities decide, the order in which rules were registered is irrelevant. An engine with
the same rules in another order answers the same to any operations, whether all matching rules run or
only the first, and is the same in the end but for the order of its rules; or none of the two comes to
an end. The operations may register more such rules on the way. -/
theorem order_of_registration_is_irrelevant (callbacks : Callbacks) (levels : Nat)
    {engine : Engine} {rules : List Rule} {operations : List Operation}
    (hpriority : engine.config.ruleOrder = .priority) (hperm : rules.Perm engine.rules)
    (hnames : (engine.rules.map (·.name)).Nodup)
    (hdecide : PrioritiesDecide (engine.rules ++ operations.flatMap Operation.rules))
    (hdeclarative : ∀ rule ∈ engine.rules ++ operations.flatMap Operation.rules,
      rule.IsDeclarative) :
    Ends Reorders
      ((transcript (perform (invoker callbacks levels)) operations).start engine)
      ((transcript (perform (invoker callbacks levels)) operations).start { engine with rules }) := by
  have hmirrors := mirrors_transcript fun operation hmem =>
    @mirrors_perform_reordered _ (invoker callbacks levels) (invoker callbacks levels) hdecide
      hdeclarative operation fun rule hrule =>
        List.mem_append_right _ (List.mem_flatMap.2 ⟨operation, hmem, hrule⟩)
  have hreordered : Reordered (engine.rules ++ operations.flatMap Operation.rules) engine
      { engine with rules } :=
    ⟨⟨rules, hperm, rfl⟩, hpriority, hnames, fun _ hmem => List.mem_append_left _ hmem⟩
  exact (hmirrors engine _ hreordered).mono fun _ _ h => h.reorders

/-- Whoever uses this altar takes its torches away and lights a new one. The rule that comes first in
the table is the second one to run. -/
def altar : Engine :=
  { (new { ruleOrder := .priority } torches).addCard { id := "altar", category := .location } with
    rules := [
      { name := "light", trigger := .use, priority := 2, effects := [.create ["torch"] 1] },
      { name := "clear", trigger := .use, priority := 1,
        effects := [.remove { scope := .children }] }] }

/-- The altar is used, and a torch is brought along, by a rule that is new. -/
def worship : List Operation :=
  [.registerRule
    { name := "offer", trigger := .use, priority := -1, effects := [.create ["torch"] 1] },
    .raise ⟨⟨0⟩, .use⟩]

/-- In the end there is one torch on the altar, the last one that was lit, and all is the same if the
rules for it were registered the other way around. -/
theorem altars_are_lit :
    Ends Reorders ((transcript (perform (invoker moving 0)) worship).start altar)
        ((transcript (perform (invoker moving 0)) worship).start
          { altar with rules := altar.rules.reverse }) ∧
      ((transcript (perform (invoker moving 0)) worship).start altar).map (fun (result, after) =>
        (result.toOption.map (·.map (·.2.isOk)), after.forest.children ⟨0⟩)) =
          some (some [true, true], [⟨3⟩]) := by
  have hdecide : PrioritiesDecide (altar.rules ++ worship.flatMap Operation.rules) :=
    ⟨by decide, by decide⟩
  refine ⟨?_, by decide_cbv⟩
  exact order_of_registration_is_irrelevant moving 0 rfl (List.reverse_perm _) (by decide) hdecide
    (by decide)

end Engine

end CardRules
