import CardRules.Engine.Process

/-!
Which rules are matched for an event, and in which order they run. A match is found at the place of
its rule in the table: the rules that react to the event are gathered once each, in the order of the
table, and every one of them draws its chances from where the one before it left off. The matches
run in the order of their places, or by priority first.
-/

namespace CardRules

/-- A match, and the place of its rule in the table. -/
structure Placed extends Match where
  place : Nat

/-- Whether a rule is registered for the kind of an event and accepts it. -/
def Rule.reacts (rule : Rule) (event : Event) : Bool :=
  rule.trigger = event.kind && rule.accepts event

/-- Whether one match runs before another. -/
def RuleOrder.Before : RuleOrder → Placed → Placed → Prop
  | .registration, first, second => first.place < second.place
  | .priority, first, second =>
    first.rule.priority < second.rule.priority ∨
      first.rule.priority = second.rule.priority ∧ first.place < second.place

/-- What runs of a list of matches that are in order. -/
def Execution.limit {α : Type} : Execution → List α → List α
  | .firstMatch, inOrder => inOrder.take 1
  | .allMatches, inOrder => inOrder

/-! ## Gathering in order -/

section

variable {σ : Type} (toss : Float → StateM σ Bool) (forest : Forest) (raised : Raised)

/-- Where the chances go on after a list of rules was gathered. -/
def Rule.chancesAfter (rules : List Rule) (chances : σ) : σ :=
  rules.foldl (fun chances rule =>
    if rule.reacts raised.event then ((rule.gather toss forest raised).run chances).2
    else chances) chances

/-- The matches of a list of rules that begins at a place of the table. -/
def Placed.gather (place : Nat) : List Rule → σ → List Placed
  | [], _ => []
  | rule :: rest, chances =>
    if rule.reacts raised.event then
      let gathered := (rule.gather toss forest raised).run chances
      gathered.1.toList.map (fun context => ⟨⟨rule, context⟩, place⟩) ++
        gather (place + 1) rest gathered.2
    else gather (place + 1) rest chances

theorem gather_cons (place : Nat) (rule : Rule) (rest : List Rule) (chances : σ) :
    Placed.gather toss forest raised place (rule :: rest) chances =
      if rule.reacts raised.event then
        let gathered := (rule.gather toss forest raised).run chances
        gathered.1.toList.map (fun context => ⟨⟨rule, context⟩, place⟩) ++
          Placed.gather toss forest raised (place + 1) rest gathered.2
      else Placed.gather toss forest raised (place + 1) rest chances := rfl

theorem run_gatherAll_cons (rule : Rule) (rest : List Rule) (chances : σ) :
    (Match.gatherAll toss forest raised (rule :: rest)).run chances =
      let gathered := (rule.gather toss forest raised).run chances
      let others := (Match.gatherAll toss forest raised rest).run gathered.2
      (gathered.1.toList.map (Match.mk rule) ++ others.1, others.2) := rfl

/-- The rules that react are gathered one after the other, without regard to their places. -/
theorem gatherAll_eq (rules : List Rule) (place : Nat) (chances : σ) :
    (Match.gatherAll toss forest raised (rules.filter (·.reacts raised.event))).run chances =
      ((Placed.gather toss forest raised place rules chances).map (·.toMatch),
        Rule.chancesAfter toss forest raised rules chances) := by
  induction rules generalizing place chances with
  | nil => rfl
  | cons rule rest ih =>
    rw [List.filter_cons, gather_cons]
    unfold Rule.chancesAfter
    by_cases h : rule.reacts raised.event = true
    · rw [if_pos h, if_pos h, List.foldl_cons, if_pos h, run_gatherAll_cons]
      simp only [ih (place + 1), List.map_append, List.map_map]
      rfl
    · rw [if_neg h, if_neg h, List.foldl_cons, if_neg h]
      exact ih (place + 1) chances

/-- A match is found at a place if the rule that stands there reacts, and gathers a context when
its turn comes. -/
theorem mem_gather {rules : List Rule} {place : Nat} {chances : σ} {found : Placed} :
    found ∈ Placed.gather toss forest raised place rules chances ↔
      ∃ offset, found.place = place + offset ∧ rules[offset]? = some found.rule ∧
        found.rule.reacts raised.event = true ∧
        ((found.rule.gather toss forest raised).run
          (Rule.chancesAfter toss forest raised (rules.take offset) chances)).1 =
            some found.context := by
  induction rules generalizing place chances with
  | nil => simp [Placed.gather]
  | cons rule rest ih =>
    -- The first place is that of the rule itself, and the others are those of the rest.
    have hrest : ∀ offset, Rule.chancesAfter toss forest raised ((rule :: rest).take (offset + 1))
        chances = Rule.chancesAfter toss forest raised (rest.take offset)
          (Rule.chancesAfter toss forest raised [rule] chances) := fun _ => rfl
    have hlater : found ∈ Placed.gather toss forest raised (place + 1) rest
          (Rule.chancesAfter toss forest raised [rule] chances) ↔
        ∃ offset, found.place = place + (offset + 1) ∧
          (rule :: rest)[offset + 1]? = some found.rule ∧
          found.rule.reacts raised.event = true ∧
          ((found.rule.gather toss forest raised).run
            (Rule.chancesAfter toss forest raised ((rule :: rest).take (offset + 1)) chances)).1 =
              some found.context := by
      rw [ih]
      simp only [hrest, List.getElem?_cons_succ, Nat.add_assoc, Nat.add_comm 1]
    rw [gather_cons, ← Nat.or_exists_add_one, ← hlater]
    by_cases h : rule.reacts raised.event = true
    · -- The rule is gathered, so the rest begins with the chances that it left.
      have hleft : Rule.chancesAfter toss forest raised [rule] chances =
          ((rule.gather toss forest raised).run chances).2 := if_pos h
      rw [if_pos h, List.mem_append, hleft]
      refine or_congr_left ?_
      rw [List.mem_map]
      constructor
      · rintro ⟨context, hcontext, rfl⟩
        exact ⟨rfl, rfl, h, Option.mem_toList.1 hcontext⟩
      · rintro ⟨hplace, hrule, -, hcontext⟩
        obtain ⟨⟨_, context⟩, _⟩ := found
        cases hplace
        cases hrule
        exact ⟨context, Option.mem_toList.2 hcontext, rfl⟩
    · have hleft : Rule.chancesAfter toss forest raised [rule] chances = chances := if_neg h
      rw [if_neg h, hleft]
      refine (or_iff_right ?_).symm
      rintro ⟨-, hrule, hreacts, -⟩
      exact h (Option.some.inj hrule ▸ hreacts)

/-- The matches are gathered in the order of their places. -/
theorem pairwise_gather (rules : List Rule) (place : Nat) (chances : σ) :
    (Placed.gather toss forest raised place rules chances).Pairwise (·.place < ·.place) := by
  induction rules generalizing place chances with
  | nil => exact .nil
  | cons rule rest ih =>
    rw [gather_cons]
    split
    · refine List.pairwise_append.2 ⟨?_, ih _ _, ?_⟩
      · -- A rule has at most one match.
        cases ((rule.gather toss forest raised).run chances).1 with
        | none => exact .nil
        | some context => exact List.pairwise_singleton _ _
      · intro first hfirst second hsecond
        obtain ⟨context, -, rfl⟩ := List.mem_map.1 hfirst
        obtain ⟨offset, hplace, -⟩ := (mem_gather toss forest raised).1 hsecond
        show place < second.place
        omega
    · exact ih _ _

end

/-! ## Without chances -/

/-- Whether a requirement draws no chance, under any number of negations. -/
def Requirement.isCertain : Requirement → Bool
  | .select .. | .property .. | .predicate _ => true
  | .chance _ => false
  | .not requirement => requirement.isCertain

/-- Whether no requirement of a rule draws a chance. -/
def Rule.isCertain (rule : Rule) : Bool := rule.requirements.all (·.isCertain)

section

variable {σ : Type} {toss : Float → StateM σ Bool} {forest : Forest} {selection : Selection}
  {raised : Raised}

/-- A requirement that draws no chance comes to the same whatever the chances are. -/
theorem Requirement.exists_run_evaluate {requirement : Requirement}
    (h : requirement.isCertain = true) : ∃ found, ∀ chances,
      (requirement.evaluate toss forest selection).run chances = (found, chances) := by
  induction requirement with
  | select | property | predicate => exact ⟨_, fun _ => rfl⟩
  | chance => cases h
  | not requirement ih =>
    obtain ⟨found, hfound⟩ := ih h
    refine ⟨if found.isNone then some [] else none, fun chances => ?_⟩
    rw [evaluate, StateT.run_bind, hfound]
    rfl

theorem Rule.run_gatherMatched_cons (requirement : Requirement) (rest : List Requirement)
    (chances : σ) :
    (gatherMatched toss forest selection (requirement :: rest)).run chances =
      match (requirement.evaluate toss forest selection).run chances with
      | (none, later) => (none, later)
      | (some found, later) =>
        (gatherMatched toss forest { selection with matched := selection.matched ++ found }
          rest).run later := by
  rw [gatherMatched, StateT.run_bind]
  rcases (requirement.evaluate toss forest selection).run chances with ⟨_ | found, later⟩
  · rfl
  · rfl

theorem Rule.exists_run_gatherMatched {requirements : List Requirement}
    (h : ∀ requirement ∈ requirements, requirement.isCertain = true) : ∃ matched, ∀ chances,
      (gatherMatched toss forest selection requirements).run chances = (matched, chances) := by
  induction requirements generalizing selection with
  | nil => exact ⟨_, fun _ => rfl⟩
  | cons requirement rest ih =>
    have hcertain := h requirement List.mem_cons_self
    obtain ⟨found, hfound⟩ := @Requirement.exists_run_evaluate σ toss forest selection _ hcertain
    cases found with
    | none =>
      refine ⟨none, fun chances => ?_⟩
      rw [run_gatherMatched_cons, hfound]
    | some found =>
      obtain ⟨matched, hmatched⟩ := ih fun other hmem => h other (List.mem_cons_of_mem _ hmem)
      refine ⟨matched, fun chances => ?_⟩
      rw [run_gatherMatched_cons, hfound]
      exact hmatched chances

/-- A rule that draws no chance gathers the same whatever the chances are. -/
theorem Rule.run_gather_eq {rule : Rule} (h : rule.isCertain = true) (chances chances' : σ) :
    (rule.gather toss forest raised).run chances' =
      (((rule.gather toss forest raised).run chances).1, chances') := by
  let selection : Selection :=
    ⟨raised.source, forest.containerOf raised.source rule.containerDistance, [], rule.maxDepth⟩
  obtain ⟨matched, hmatched⟩ :=
    @Rule.exists_run_gatherMatched σ toss forest selection _ (List.all_eq_true.1 h)
  simp only [gather, StateT.run_bind]
  rw [hmatched chances, hmatched chances']
  rfl

theorem Rule.chancesAfter_eq {rules : List Rule} (h : ∀ rule ∈ rules, rule.isCertain = true)
    (chances : σ) : chancesAfter toss forest raised rules chances = chances := by
  induction rules with
  | nil => rfl
  | cons rule rest ih =>
    unfold chancesAfter
    rw [List.foldl_cons, rule.run_gather_eq (h rule List.mem_cons_self) chances, ite_self]
    exact ih fun other hmem => h other (List.mem_cons_of_mem _ hmem)

end

/-! ## The order in which matches run -/

namespace Placed

/-- Whether a match may run before another as far as their priorities go. -/
def noLater (first second : Placed) : Bool := first.rule.priority ≤ second.rule.priority

theorem noLater_trans (first second third : Placed) (h : first.noLater second = true)
    (h' : second.noLater third = true) : first.noLater third = true := by
  simp only [noLater, decide_eq_true_eq] at h h' ⊢
  omega

theorem noLater_total (first second : Placed) :
    (first.noLater second || second.noLater first) = true := by
  simp only [noLater, Bool.or_eq_true, decide_eq_true_eq]
  omega

/-- The matches in the order in which they run. -/
def inOrder (order : RuleOrder) (gathered : List Placed) : List Placed :=
  match order with
  | .registration => gathered
  | .priority => gathered.mergeSort noLater

/-- Among matches of one priority, sorting keeps the order. -/
theorem filter_mergeSort (gathered : List Placed) (priority : Int) :
    (gathered.mergeSort noLater).filter (·.rule.priority = priority) =
      gathered.filter (·.rule.priority = priority) := by
  have hequal : (gathered.filter (·.rule.priority = priority)).Pairwise (noLater · ·) := by
    refine List.pairwise_of_forall_mem_list fun first hfirst second hsecond => ?_
    have hpriority := of_decide_eq_true (List.mem_filter.1 hfirst).2
    have hpriority' := of_decide_eq_true (List.mem_filter.1 hsecond).2
    simp [noLater, hpriority, hpriority']
  -- Sorting keeps a part that is in order already, and a sorted list has no more of it.
  have hsublist := List.sublist_mergeSort noLater_trans
    noLater_total hequal List.filter_sublist
  have hfiltered := hsublist.filter (·.rule.priority = priority)
  rw [List.filter_filter] at hfiltered
  simp only [Bool.and_self] at hfiltered
  refine (hfiltered.eq_of_length ?_).symm
  exact ((List.mergeSort_perm gathered _).filter _).length_eq.symm

theorem mem_inOrder {order : RuleOrder} {gathered : List Placed} {found : Placed} :
    found ∈ inOrder order gathered ↔ found ∈ gathered := by
  cases order with
  | registration => rfl
  | priority => exact List.mem_mergeSort

/-- Of matches that were gathered in the order of their places, each runs after those that are
before it. -/
theorem pairwise_inOrder (order : RuleOrder) {gathered : List Placed}
    (h : gathered.Pairwise (·.place < ·.place)) :
    (inOrder order gathered).Pairwise order.Before := by
  cases order with
  | registration => exact h
  | priority =>
    refine List.pairwise_iff_forall_sublist.2 fun {first second} hpair => ?_
    have hsorted := List.pairwise_iff_forall_sublist.1
      (List.pairwise_mergeSort noLater_trans noLater_total
        gathered) hpair
    rcases Int.lt_or_eq_of_le (of_decide_eq_true hsorted) with hless | hequal
    · exact .inl hless
    · -- Both are among the matches of one priority, which have kept their order.
      refine .inr ⟨hequal, ?_⟩
      have hkept := hpair.filter (·.rule.priority = second.rule.priority)
      unfold inOrder at hkept
      rw [filter_mergeSort] at hkept
      simp only [List.filter_cons, hequal, decide_true, if_true, List.filter_nil] at hkept
      exact List.pairwise_iff_forall_sublist.1 h (hkept.trans List.filter_sublist)

end Placed

/-- Which matches run is decided by their rules alone, so places can be kept along. -/
theorem Config.choose_map (config : Config) (gathered : List Placed) :
    config.choose (gathered.map (·.toMatch)) =
      config.execution.limit ((Placed.inOrder config.ruleOrder gathered).map (·.toMatch)) := by
  unfold choose Execution.limit Placed.inOrder
  cases config.ruleOrder with
  | registration => cases config.execution <;> rfl
  | priority =>
    have hsorted : (gathered.map (·.toMatch)).mergeSort
          (fun first second => first.rule.priority ≤ second.rule.priority) =
        (gathered.mergeSort Placed.noLater).map (·.toMatch) :=
      (List.map_mergeSort (f := fun found : Placed => found.toMatch) fun _ _ _ _ => rfl).symm
    simp only [hsorted]
    cases config.execution <;> rfl

namespace Engine

/-! ## What an engine finds -/

/-- Where the engine's chances go on after rules were gathered for an event. -/
def generatorAfter (engine : Engine) (raised : Raised) (rules : List Rule) : Random.Generator :=
  Rule.chancesAfter Random.Generator.chance engine.forest raised rules engine.generator

/-- A match is found for an event if its rule stands at its place in the table, reacts to the event,
and gathers the context on the forest as it is, with the chances that the rules before it left. -/
structure Finds (engine : Engine) (raised : Raised) (found : Placed) : Prop where
  stands : engine.rules[found.place]? = some found.rule
  trigger : found.rule.trigger = raised.event.kind
  accepts : found.rule.accepts raised.event = true
  gathers : ((found.rule.gather Random.Generator.chance engine.forest raised).run
    (engine.generatorAfter raised (engine.rules.take found.place))).1 = some found.context

variable (engine : Engine) (raised : Raised)

/-- What is found is what the rules of the table gather. -/
theorem finds_iff (found : Placed) :
    engine.Finds raised found ↔
      found ∈ Placed.gather Random.Generator.chance engine.forest raised 0 engine.rules
        engine.generator := by
  rw [mem_gather]
  constructor
  · rintro ⟨hstands, htrigger, haccepts, hgathers⟩
    refine ⟨found.place, (Nat.zero_add _).symm, hstands, ?_, hgathers⟩
    simp [Rule.reacts, htrigger, haccepts]
  · rintro ⟨offset, hplace, hstands, hreacts, hgathers⟩
    have hoffset : offset = found.place := by omega
    subst hoffset
    simp only [Rule.reacts, Bool.and_eq_true, decide_eq_true_eq] at hreacts
    exact ⟨hstands, hreacts.1, hreacts.2, hgathers⟩

theorem findMatches_eq :
    engine.findMatches raised =
      ((Placed.gather Random.Generator.chance engine.forest raised 0 engine.rules
          engine.generator).map (·.toMatch),
        { engine with generator := engine.generatorAfter raised engine.rules }) := by
  have hcandidates : engine.candidates raised.event =
      engine.rules.filter (·.reacts raised.event) := by
    unfold candidates rulesFor
    rw [List.filter_filter]
    simp only [Rule.reacts, Bool.and_comm]
  unfold findMatches
  rw [hcandidates, gatherAll_eq _ _ _ _ 0]
  rfl

/-- A match that runs belongs to a rule of the table, and was gathered on the forest as it is. -/
theorem rule_mem_of_mem_choose {found : Match}
    (h : found ∈ engine.config.choose (engine.findMatches raised).1) :
    found.rule ∈ engine.rules ∧
      ∃ chances, ((found.rule.gather Random.Generator.chance engine.forest raised).run chances).1 =
        some found.context := by
  rw [findMatches_eq, Config.choose_map] at h
  have hlimit : ∀ ordered : List Match,
      found ∈ engine.config.execution.limit ordered → found ∈ ordered := by
    intro ordered hmem
    cases hexecution : engine.config.execution with
    | firstMatch =>
      rw [hexecution] at hmem
      exact List.mem_of_mem_take hmem
    | allMatches =>
      rw [hexecution] at hmem
      exact hmem
  obtain ⟨placed, hplaced, rfl⟩ := List.mem_map.1 (hlimit _ h)
  have hfinds := (finds_iff engine raised placed).2 (Placed.mem_inOrder.1 hplaced)
  exact ⟨List.mem_of_getElem? hfinds.stands, _, hfinds.gathers⟩

/-- The matches that run are those found, in their order, each one after those before it. -/
theorem exists_inOrder :
    ∃ found : List Placed, found.Pairwise engine.config.ruleOrder.Before ∧
      (∀ placed, placed ∈ found ↔ engine.Finds raised placed) ∧
      engine.config.choose (engine.findMatches raised).1 =
        engine.config.execution.limit (found.map (·.toMatch)) := by
  refine ⟨Placed.inOrder engine.config.ruleOrder (Placed.gather Random.Generator.chance
    engine.forest raised 0 engine.rules engine.generator), ?_, fun placed => ?_, ?_⟩
  · exact Placed.pairwise_inOrder _ (pairwise_gather _ _ _ _ _ _)
  · rw [Placed.mem_inOrder, finds_iff]
  · rw [findMatches_eq, Config.choose_map]

end Engine

end CardRules
