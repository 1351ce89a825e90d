import CardRules.Proofs.Forest.Lineage
import CardRules.Proofs.Matching

/-!
What a rule gathers. Each requirement hands over cards that it selected, and later ones can select
from what was handed over so far. Whether the rule names a card once or as often as it was handed
over is decided after all that. What is gathered lies at the container or below it, or it is the
source.
-/

namespace CardRules

/-! ## Lists without repetitions -/

/-- A list without the repetitions keeps each member where it comes first. -/
theorem Rule.distinct_eq_eraseDups (handles : List Handle) :
    distinct handles = handles.eraseDups := by
  -- To what was seen, the rest adds those of its members that were not seen.
  have hfold : ∀ seen : List Handle,
      handles.foldl (fun seen next => if next ∈ seen then seen else seen ++ [next]) seen =
        seen ++ (handles.filter (· ∉ seen)).eraseDups := by
    induction handles with
    | nil => simp
    | cons first rest ih =>
      intro seen
      rw [List.foldl_cons]
      by_cases hseen : first ∈ seen
      · rw [if_pos hseen, ih, List.filter_cons_of_neg (by simpa using hseen)]
      · rw [if_neg hseen, ih, List.filter_cons_of_pos (by simpa using hseen), List.eraseDups_cons,
          List.filter_filter, List.append_assoc, List.singleton_append]
        congr 3
        refine List.filter_congr fun handle _ => ?_
        simp [Bool.and_comm, Bool.beq_eq_decide_eq]
  unfold distinct
  rw [hfold]
  simp

theorem Rule.mem_distinct {handles : List Handle} {handle : Handle} :
    handle ∈ distinct handles ↔ handle ∈ handles := by
  rw [distinct_eq_eraseDups, List.mem_eraseDups]

theorem Rule.nodup_distinct (handles : List Handle) : (distinct handles).Nodup := by
  -- What was seen so far has no repetitions, and a card is added only if it is new.
  have hfold : ∀ seen : List Handle, seen.Nodup →
      (handles.foldl (fun seen next => if next ∈ seen then seen else seen ++ [next])
        seen).Nodup := by
    induction handles with
    | nil => exact fun seen hseen => hseen
    | cons first rest ih =>
      intro seen hseen
      rw [List.foldl_cons]
      by_cases hmem : first ∈ seen
      · rw [if_pos hmem]
        exact ih seen hseen
      · rw [if_neg hmem, ← List.concat_eq_append]
        exact ih _ (hseen.concat hmem)
  exact hfold [] .nil

/-- Where nothing is repeated there is nothing to drop. -/
theorem eraseDups_of_nodup {handles : List Handle} (h : handles.Nodup) :
    handles.eraseDups = handles := by
  induction handles with
  | nil => rfl
  | cons first rest ih =>
    obtain ⟨hnew, hrest⟩ := List.nodup_cons.1 h
    have hkept : rest.filter (fun handle => !handle == first) = rest :=
      List.filter_eq_self.2 fun handle hmem => by
        have hne : handle ≠ first := fun heq => hnew (heq ▸ hmem)
        simpa using hne
    rw [List.eraseDups_cons, hkept, ih hrest]

theorem Rule.eraseDups_distinct (handles : List Handle) :
    (distinct handles).eraseDups = handles.eraseDups := by
  rw [eraseDups_of_nodup (nodup_distinct handles), distinct_eq_eraseDups]

/-! ## What is handed over -/

section

variable {σ : Type} {toss : Float → StateM σ Bool} {forest : Forest} {selection : Selection}
  {within : Set Handle} {chances : σ} {handle : Handle}

/-- What is selected is one of the candidates, and a known card. -/
theorem Selector.mem_candidates_of_mem_select {selector : Selector}
    (h : handle ∈ selector.select forest selection) :
    handle ∈ selector.candidates forest selection ∧ forest.contains handle = true := by
  have hadmitted : handle ∈ (selector.candidates forest selection).filter
      (selector.admits forest) := by
    unfold select at h
    split at h
    · exact List.mem_of_mem_take h
    · exact h
  obtain ⟨hcandidate, hadmits⟩ := List.mem_filter.1 hadmitted
  refine ⟨hcandidate, ?_⟩
  obtain ⟨card, hcard, -⟩ := (Option.any_eq_true _ _).1 hadmits
  exact Forest.contains_iff.2 ⟨card, hcard⟩

/-- The source, the container and the cards below the container, of those that are known. -/
def Selection.reach (selection : Selection) (forest : Forest) : Set Handle :=
  {handle | forest.contains handle = true ∧ (handle = selection.source ∨
    handle = selection.container ∨ forest.Descends handle selection.container)}

/-- If the matched cards are within reach, so is all that can be selected. -/
theorem Selector.mem_reach_of_mem_select {selector : Selector}
    (hmatched : ∀ handle ∈ selection.matched, handle ∈ selection.reach forest)
    (h : handle ∈ selector.select forest selection) : handle ∈ selection.reach forest := by
  obtain ⟨hcandidate, hknown⟩ := mem_candidates_of_mem_select h
  unfold candidates at hcandidate
  split at hcandidate
  · exact hmatched handle hcandidate
  · exact ⟨hknown, .inr (.inr (.single hcandidate))⟩
  · exact ⟨hknown, .inr (.inr (Forest.descends_of_mem_descendants hcandidate))⟩
  · exact ⟨hknown, .inl (List.mem_singleton.1 hcandidate)⟩
  · exact ⟨hknown, .inr (.inl (List.mem_singleton.1 hcandidate))⟩

/-- A requirement hands over none but cards that it selected. -/
theorem Requirement.mem_of_run_evaluate
    (hselect : ∀ selector : Selector, ∀ handle ∈ selector.select forest selection, handle ∈ within)
    {requirement : Requirement} {found : List Handle}
    (h : ((requirement.evaluate toss forest selection).run chances).1 = some found)
    (hmem : handle ∈ found) : handle ∈ within := by
  -- What only says yes or no hands over nothing.
  have hnothing : ∀ passes : Bool,
      (if passes = true then some [] else none) = some found → handle ∈ within := by
    intro passes hfound
    split at hfound
    · cases hfound
      cases hmem
    · cases hfound
  cases requirement with
  | select selector min max collect =>
    have hfound : (if withinBounds (selector.select forest selection).length min max then
        some (if collect then selector.select forest selection else []) else none) = some found := h
    split at hfound
    · cases hfound
      split at hmem
      · exact hselect selector handle hmem
      · cases hmem
    · cases hfound
  | property selector name comparison bound =>
    have hfound : (if ((selector.select forest selection).filter
        (propertyHolds forest name comparison bound)).isEmpty then none else
          some ((selector.select forest selection).filter
            (propertyHolds forest name comparison bound))) = some found := h
    split at hfound
    · cases hfound
    · cases hfound
      exact hselect selector handle (List.mem_filter.1 hmem).1
  | chance probability => exact hnothing _ h
  | not requirement => exact hnothing _ h
  | predicate holds => exact hnothing _ h

/-- Matched cards that are within reach are so still when all requirements have added theirs. -/
theorem Rule.mem_of_run_gatherMatched
    (hstart : ∀ handle ∈ selection.matched, handle ∈ selection.reach forest)
    {requirements : List Requirement} {matched : List Handle}
    (h : ((gatherMatched toss forest selection requirements).run chances).1 = some matched)
    (hmem : handle ∈ matched) : handle ∈ selection.reach forest := by
  induction requirements generalizing selection chances with
  | nil =>
    cases h
    exact hstart handle hmem
  | cons requirement rest ih =>
    rw [Rule.run_gatherMatched_cons] at h
    rcases hfound : (requirement.evaluate toss forest selection).run chances with
      ⟨_ | found, later⟩
    · simp [hfound] at h
    · simp only [hfound] at h
      have hgiven : ∀ handle ∈ found, handle ∈ selection.reach forest := fun handle hmem =>
        requirement.mem_of_run_evaluate (fun _ _ => Selector.mem_reach_of_mem_select hstart)
          (congrArg Prod.fst hfound) hmem
      -- What is within reach does not depend on what was matched.
      let joined : Selection := { selection with matched := selection.matched ++ found }
      have hjoined : ∀ handle ∈ joined.matched, handle ∈ joined.reach forest :=
        fun other hother => (List.mem_append.1 hother).elim (hstart other) (hgiven other)
      have hall : handle ∈ joined.reach forest := ih hjoined h
      exact hall

end

/-! ## Distinct matches -/

section

variable {σ : Type} {toss : Float → StateM σ Bool} {forest : Forest} {raised : Raised}
  {rule : Rule} {chances : σ} {context : RuleContext}

/-- The context of a rule to which its requirements have handed over some cards. -/
def Rule.contextOf (rule : Rule) (forest : Forest) (raised : Raised) (matched : List Handle) :
    RuleContext where
  rule := rule.name
  event := raised.event
  source := raised.source
  container := forest.containerOf raised.source rule.containerDistance
  matched := if rule.policy.distinctMatched then distinct matched else matched
  maxDepth := rule.maxDepth

/-- What the requirements of a rule start from: nothing is matched yet. -/
def Rule.start (rule : Rule) (forest : Forest) (raised : Raised) : Selection :=
  ⟨raised.source, forest.containerOf raised.source rule.containerDistance, [], rule.maxDepth⟩

theorem Rule.run_gather (rule : Rule) :
    (rule.gather toss forest raised).run chances =
      let gathered := (gatherMatched toss forest (rule.start forest raised)
        rule.requirements).run chances
      (gathered.1.map (rule.contextOf forest raised), gathered.2) := rfl

/-- Whether or not a rule drops repetitions, all that it gathers is within reach. -/
theorem Rule.reaches_of_run_gather
    (h : ((rule.gather toss forest raised).run chances).1 = some context) :
    context.container = forest.containerOf raised.source rule.containerDistance ∧
      ∀ handle ∈ context.matched, forest.contains handle = true ∧
        (handle = raised.source ∨ handle = context.container ∨
          forest.Descends handle context.container) := by
  obtain ⟨matched, hmatched, rfl⟩ := Option.map_eq_some_iff.1 h
  refine ⟨rfl, fun handle hmem => ?_⟩
  have hgathered : handle ∈ matched := by
    simp only at hmem
    split at hmem
    · exact mem_distinct.1 hmem
    · exact hmem
  have hreach : handle ∈ (rule.start forest raised).reach forest :=
    mem_of_run_gatherMatched (fun _ hnone => (List.not_mem_nil hnone).elim) hmatched hgathered
  exact hreach

/-- The rule that names no card twice, and is the same otherwise. -/
def Rule.distinctly (rule : Rule) : Rule :=
  { rule with policy := { rule.policy with distinctMatched := true } }

theorem Rule.contextOf_distinctly (matched : List Handle) :
    rule.distinctly.contextOf forest raised matched =
      { rule.contextOf forest raised matched with
        matched := (rule.contextOf forest raised matched).matched.eraseDups } := by
  have hmatched : distinct matched =
      (if rule.policy.distinctMatched then distinct matched else matched).eraseDups := by
    split
    · rw [eraseDups_distinct, distinct_eq_eraseDups]
    · exact distinct_eq_eraseDups matched
  unfold contextOf
  rw [← hmatched]
  rfl

theorem Rule.run_gather_distinctly (rule : Rule) :
    (rule.distinctly.gather toss forest raised).run chances =
      (((rule.gather toss forest raised).run chances).1.map fun context =>
        { context with matched := context.matched.eraseDups },
        ((rule.gather toss forest raised).run chances).2) := by
  -- The requirements of both rules are the same and start from the same.
  have hstart : rule.distinctly.start forest raised = rule.start forest raised := rfl
  have hrequirements : rule.distinctly.requirements = rule.requirements := rfl
  rw [run_gather, run_gather, hstart, hrequirements]
  simp only [Option.map_map]
  congr 2
  exact funext contextOf_distinctly

/-- To name no card twice changes what is matched and nothing before that. The distinct rule gathers
a context if and only if the rule itself does, and the chances go on from the same point; the
contexts are the same, but for the repetitions, which one of them lacks. Either way each matched
card is a known one, and it is the source, the container or a card below the container. -/
theorem distinct_matches_are_gathered_alike (toss : Float → StateM σ Bool) (forest : Forest)
    (raised : Raised) (rule : Rule) (chances : σ) :
    (rule.distinctly.gather toss forest raised).run chances =
      (((rule.gather toss forest raised).run chances).1.map fun context =>
        { context with matched := context.matched.eraseDups },
        ((rule.gather toss forest raised).run chances).2) ∧
    (∀ context, ((rule.gather toss forest raised).run chances).1 = some context ∨
        ((rule.distinctly.gather toss forest raised).run chances).1 = some context →
      context.container = forest.containerOf raised.source rule.containerDistance ∧
      ∀ handle ∈ context.matched, forest.contains handle = true ∧
        (handle = raised.source ∨ handle = context.container ∨
          forest.Descends handle context.container)) ∧
    (forest.Sound → ∀ low high,
      forest.Descends low high ↔ low ∈ forest.descendants high none) := by
  refine ⟨rule.run_gather_distinctly, fun context hcontext => ?_,
    fun hsound low high => Forest.descends_iff hsound⟩
  exact hcontext.elim Rule.reaches_of_run_gather Rule.reaches_of_run_gather

end

/-- A rule of the whole orchard: it matches everything below the trunk, and the first two of that
once more. -/
def harvest : Rule where
  name := "harvest"
  trigger := .added
  containerDistance := -1
  requirements :=
    [.has { scope := .descendants }, .chance 0.5, .has { scope := .matched, take := some 2 }]

/-- Chances that always come up, and how many were drawn. -/
def lucky : Float → StateM Nat Bool := fun _ => modifyGet fun drawn => (true, drawn + 1)

/-- The harvest names both branches twice, and the distinct harvest once. Each draws one chance, and
what they name lies below the trunk. -/
theorem branches_are_harvested_once :
    ∃ forest : Forest, forest.Planted ∧ ∃ context,
      (harvest.gather lucky forest ⟨⟨3⟩, .added ⟨2⟩⟩).run 0 = (some context, 1) ∧
      context.matched = [⟨1⟩, ⟨2⟩, ⟨3⟩, ⟨1⟩, ⟨2⟩] ∧ context.container = ⟨0⟩ ∧
      (harvest.distinctly.gather lucky forest ⟨⟨3⟩, .added ⟨2⟩⟩).run 0 =
        (some { context with matched := [⟨1⟩, ⟨2⟩, ⟨3⟩] }, 1) ∧
      forest.contains ⟨1⟩ = true ∧ forest.Descends ⟨1⟩ ⟨0⟩ ∧ ⟨1⟩ ∈ forest.descendants ⟨0⟩ none := by
  have hfacts : Forest.orchard.map (fun forest =>
      let gathered := (harvest.gather lucky forest ⟨⟨3⟩, .added ⟨2⟩⟩).run 0
      (gathered.1.map fun context => (context.matched, context.container), gathered.2)) =
      some (some ([⟨1⟩, ⟨2⟩, ⟨3⟩, ⟨1⟩, ⟨2⟩], ⟨0⟩), 1) := by
    decide +kernel
  obtain ⟨forest, hforest, hvalues⟩ := Option.map_eq_some_iff.1 hfacts
  obtain ⟨hgathered, hdrawn⟩ := Prod.mk.inj hvalues
  obtain ⟨context, hcontext, hplaces⟩ := Option.map_eq_some_iff.1 hgathered
  obtain ⟨hmatched, hcontainer⟩ := Prod.mk.inj hplaces
  have hplanted := Forest.planted_of_orchard hforest
  obtain ⟨hdistinct, hreach, hdescends⟩ :=
    distinct_matches_are_gathered_alike lucky forest ⟨⟨3⟩, .added ⟨2⟩⟩ harvest 0
  obtain ⟨-, hplace⟩ := hreach context (.inl hcontext)
  obtain ⟨hknown, hsource | htrunk | hbelow⟩ := hplace ⟨1⟩ (by simp [hmatched])
  · cases hsource
  · cases htrunk.trans hcontainer
  · rw [hcontainer] at hbelow
    refine ⟨forest, hplanted, context, Prod.ext hcontext hdrawn, hmatched, hcontainer, ?_, hknown,
      hbelow, (hdescends hplanted.sound _ _).1 hbelow⟩
    rw [hdistinct, hcontext, Option.map_some, hmatched, hdrawn]
    rfl

end CardRules
