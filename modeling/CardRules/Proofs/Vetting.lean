import CardRules.Proofs.Binary64
import CardRules.Proofs.Gathering
import Mathlib.Data.List.TakeWhile

/-!
Vetting. A rule is accepted if its name is not blank, if it asks for an event id only where events
have ids, and if what its requirements say under all negations is well formed. Only an accepted rule
comes into the table, and that is enough for the tosses: each chance it tosses is a probability, so a
source of chances that cannot answer for anything else is never asked for anything else.
-/

namespace CardRules

/-! ## Blank names -/

/-- Nothing is left of a text at both ends if and only if all of it is white space. -/
theorem Text.trim_eq_empty_iff (text : String) : trim text = "" ↔ isBlankText text = true := by
  unfold trim isBlankText
  rw [String.ofList_eq_empty_iff, List.reverse_eq_nil_iff, List.dropWhile_eq_nil_iff,
    List.all_eq_true]
  constructor
  · intro h c hmem
    rw [← @List.takeWhile_append_dropWhile _ isBlank text.toList] at hmem
    rcases List.mem_append.1 hmem with hstart | hrest
    · exact List.mem_takeWhile_imp hstart
    · exact h c (List.mem_reverse.2 hrest)
  · intro h c hmem
    exact h c ((List.dropWhile_sublist isBlank).mem (List.mem_reverse.1 hmem))

/-! ## Probabilities -/

/-- A number from zero to one. -/
def IsProbability (p : Float) : Prop := 0 ≤ p ∧ p ≤ 1

instance (p : Float) : Decidable (IsProbability p) := inferInstanceAs (Decidable (_ ∧ _))

/-- A value is a probability unless it is no number, too small or too large. -/
theorem isProbability_iff (p : Float) :
    IsProbability p ↔ ¬ (p.isNaN = true ∨ p < 0 ∨ 1 < p) := by
  have hzero : (0 : Float).isNaN = false := by decide +kernel
  have hone : (1 : Float).isNaN = false := by decide +kernel
  unfold IsProbability
  cases hp : p.isNaN with
  | true =>
    have hnone : ¬ 0 ≤ p := by
      intro hle
      rw [(Binary64.isNaN_of_le hle).2] at hp
      cases hp
    simp [hnone]
  | false =>
    rw [Binary64.le_iff_not_lt hzero hp, Binary64.le_iff_not_lt hp hone]
    simp

/-- What is a probability is not changed. -/
theorem Requirement.clamp_of_isProbability {p : Float} (h : IsProbability p) : clamp p = p := by
  rw [isProbability_iff] at h
  unfold clamp
  rw [if_neg fun hless => h (.inr (.inl hless)), if_neg fun hmore => h (.inr (.inr hmore))]

/-! ## What is accepted -/

/-- What a requirement says under all its negations. -/
def Requirement.core : Requirement → Requirement
  | .not requirement => requirement.core
  | requirement => requirement

/-- Under all negations, a chance is a probability, and some number of cards is within bounds. -/
structure Requirement.WellFormed (requirement : Requirement) : Prop where
  chance : ∀ p, requirement.core = .chance p → ¬ (p.isNaN = true ∨ p < 0 ∨ 1 < p)
  bounds : ∀ selector min max collect,
    requirement.core = .select selector min (some max) collect → ¬ max < min

theorem Requirement.fault?_eq_none_iff (requirement : Requirement) :
    requirement.fault? = none ↔ requirement.WellFormed := by
  induction requirement with
  | select selector min max collect =>
    cases max with
    | none => exact ⟨fun _ => ⟨nofun, nofun⟩, fun _ => rfl⟩
    | some max =>
      unfold fault?
      rw [ite_eq_right_iff]
      constructor
      · intro h
        refine ⟨nofun, fun _ _ _ _ hcore hless => ?_⟩
        cases hcore
        exact nomatch h hless
      · intro h hless
        exact absurd hless (h.bounds _ _ _ _ rfl)
  | property => exact ⟨fun _ => ⟨nofun, nofun⟩, fun _ => rfl⟩
  | chance p =>
    have hunit : (0 ≤ p && p ≤ 1 : Bool) = true ↔ IsProbability p := by
      rw [Bool.and_eq_true, decide_eq_true_iff, decide_eq_true_iff]
      rfl
    unfold fault?
    constructor
    · intro h
      refine ⟨fun _ hcore => ?_, nofun⟩
      cases hcore
      rw [← isProbability_iff, ← hunit]
      by_contra hnot
      simp [hnot] at h
    · intro h
      rw [if_pos (hunit.2 ((isProbability_iff p).2 (h.chance p rfl)))]
  | not requirement ih =>
    -- A negation has the core of what it negates.
    have hcore : requirement.not.core = requirement.core := rfl
    unfold fault?
    rw [ih]
    constructor
    · intro h
      exact ⟨hcore ▸ h.chance, hcore ▸ h.bounds⟩
    · intro h
      exact ⟨hcore ▸ h.chance, hcore ▸ h.bounds⟩
  | predicate => exact ⟨fun _ => ⟨nofun, nofun⟩, fun _ => rfl⟩

theorem Rule.validate_eq_ok_iff (rule : Rule) :
    rule.validate = .ok () ↔ Text.trim rule.name ≠ "" ∧
      (rule.customId ≠ none → rule.trigger = .custom) ∧
      ∀ requirement ∈ rule.requirements, requirement.WellFormed := by
  have hfault : rule.validate = .ok () ↔ rule.fault? = none := by
    unfold validate
    cases rule.fault? <;> simp
  have hrequirements : rule.requirements.findSome? Requirement.fault? = none ↔
      ∀ requirement ∈ rule.requirements, requirement.WellFormed := by
    simp only [List.findSome?_eq_none_iff, Requirement.fault?_eq_none_iff]
  have hid : (rule.customId.isSome && decide (rule.trigger ≠ .custom)) = true ↔
      ¬ (rule.customId ≠ none → rule.trigger = .custom) := by
    rw [Bool.and_eq_true, decide_eq_true_iff, Option.isSome_iff_ne_none, Classical.not_imp]
  rw [hfault, ← hrequirements, Ne, Text.trim_eq_empty_iff]
  unfold fault?
  split
  next hblank => exact ⟨nofun, fun h => absurd hblank h.1⟩
  next hnamed =>
    split
    next hother => exact ⟨nofun, fun h => absurd h.2.1 (hid.1 hother)⟩
    next hnever =>
      have hcustom : rule.customId ≠ none → rule.trigger = .custom :=
        not_not.1 fun hnot => hnever (hid.2 hnot)
      exact ⟨fun h => ⟨hnamed, hcustom, h⟩, fun h => h.2.2⟩

/-! ## Computations that go alike -/

section

variable {σ τ α β : Type} {R : σ → τ → Prop}

/-- Two computations on related states come to the same and leave related states behind. -/
def GoAlike (R : σ → τ → Prop) (x : StateM σ α) (y : StateM τ α) : Prop :=
  ∀ state other, R state other →
    (x.run state).1 = (y.run other).1 ∧ R (x.run state).2 (y.run other).2

theorem GoAlike.pure (a : α) : GoAlike R (Pure.pure a) (Pure.pure a) := fun _ _ h => ⟨rfl, h⟩

theorem GoAlike.bind {x : StateM σ α} {y : StateM τ α} {f : α → StateM σ β} {g : α → StateM τ β}
    (hfirst : GoAlike R x y) (hrest : ∀ a, GoAlike R (f a) (g a)) : GoAlike R (x >>= f) (y >>= g) := by
  intro state other h
  rcases hx : x.run state with ⟨a, later⟩
  rcases hy : y.run other with ⟨b, later'⟩
  obtain ⟨hsame, hnext⟩ := hfirst state other h
  rw [hx, hy] at hsame hnext
  cases hsame
  rw [StateT.run_bind, StateT.run_bind, hx, hy]
  exact hrest a later later' hnext

variable {toss : Float → StateM σ Bool} {toss' : Float → StateM τ Bool} {forest : Forest}

/-- A requirement comes to the same if the chance that it tosses does. -/
theorem Requirement.alike_evaluate {requirement : Requirement} {selection : Selection}
    (h : ∀ p, requirement.core = .chance p → GoAlike R (toss (clamp p)) (toss' (clamp p))) :
    GoAlike R (requirement.evaluate toss forest selection)
      (requirement.evaluate toss' forest selection) := by
  induction requirement with
  | select => exact .pure _
  | property => exact .pure _
  | chance p => exact (h p rfl).bind fun _ => .pure _
  | not requirement ih => exact (ih h).bind fun _ => .pure _
  | predicate => exact .pure _

theorem Rule.alike_gatherMatched {requirements : List Requirement} {selection : Selection}
    (h : ∀ requirement ∈ requirements, ∀ p, requirement.core = .chance p →
      GoAlike R (toss (Requirement.clamp p)) (toss' (Requirement.clamp p))) :
    GoAlike R (gatherMatched toss forest selection requirements)
      (gatherMatched toss' forest selection requirements) := by
  induction requirements generalizing selection with
  | nil => exact .pure _
  | cons requirement rest ih =>
    refine (requirement.alike_evaluate (h requirement List.mem_cons_self)).bind fun found => ?_
    cases found with
    | none => exact .pure _
    | some found => exact ih fun other hmem => h other (List.mem_cons_of_mem _ hmem)

/-- A rule gathers the same if the chances that it tosses come to the same. -/
theorem Rule.alike_gather {rule : Rule} {raised : Raised}
    (h : ∀ requirement ∈ rule.requirements, ∀ p, requirement.core = .chance p →
      GoAlike R (toss (Requirement.clamp p)) (toss' (Requirement.clamp p))) :
    GoAlike R (rule.gather toss forest raised) (rule.gather toss' forest raised) :=
  (alike_gatherMatched h).bind fun _ => .pure _

end

/-! ## What is tossed -/

section

variable {σ : Type} {toss : Float → StateM σ Bool} {forest : Forest} {raised : Raised}
  {rule : Rule} {chances : σ}

/-- A toss that notes what it was asked for. -/
def noting (toss : Float → StateM σ Bool) (p : Float) : StateM (σ × List Float) Bool :=
  fun (chances, tossed) =>
    let (happens, later) := (toss p).run chances
    (happens, later, tossed ++ [p])

/-- A toss that breaks down for good if it is asked for what is no probability. -/
def fragile (toss : Float → StateM σ Bool) (p : Float) : StateM (Option σ) Bool
  | none => (false, none)
  | some chances =>
    if IsProbability p then
      let (happens, later) := (toss p).run chances
      (happens, some later)
    else (false, none)

-- What is no number is not changed, so it reaches the toss if it is not refused before.
example : ((Requirement.not (.chance (0 / 0))).evaluate (fragile lucky) ∅
    ⟨⟨0⟩, ⟨0⟩, [], none⟩ (some 0)).2 = none := by decide +kernel

/-- What an accepted rule tosses are the chances in its requirements, as they are. -/
theorem Rule.tosses_of_validate (h : rule.validate = .ok ()) {requirement : Requirement}
    (hmem : requirement ∈ rule.requirements) {p : Float} (hcore : requirement.core = .chance p) :
    Requirement.clamp p = p ∧ IsProbability p := by
  obtain ⟨-, -, hformed⟩ := rule.validate_eq_ok_iff.1 h
  have hunit : IsProbability p :=
    (isProbability_iff p).2 ((hformed requirement hmem).chance p hcore)
  exact ⟨Requirement.clamp_of_isProbability hunit, hunit⟩

theorem Rule.run_gather_noting (h : rule.validate = .ok ()) :
    ∃ tossed, (rule.gather (noting toss) forest raised).run (chances, []) =
        (((rule.gather toss forest raised).run chances).1,
          ((rule.gather toss forest raised).run chances).2, tossed) ∧
      ∀ p ∈ tossed, IsProbability p ∧
        ∃ requirement ∈ rule.requirements, requirement.core = .chance p := by
  -- The notes hold nothing but such chances, and the chances themselves are as without notes.
  let R : σ → σ × List Float → Prop := fun chances noted => noted.1 = chances ∧
    ∀ p ∈ noted.2, IsProbability p ∧
      ∃ requirement ∈ rule.requirements, requirement.core = .chance p
  have halike : GoAlike R (rule.gather toss forest raised)
      (rule.gather (noting toss) forest raised) := by
    refine rule.alike_gather fun requirement hmem p hcore => ?_
    obtain ⟨hclamp, hunit⟩ := Rule.tosses_of_validate h hmem hcore
    rw [hclamp]
    rintro chances ⟨chances', tossed⟩ ⟨rfl, htossed⟩
    refine ⟨rfl, rfl, fun q hq => ?_⟩
    rcases List.mem_append.1 hq with hbefore | hnow
    · exact htossed q hbefore
    · rw [List.mem_singleton.1 hnow]
      exact ⟨hunit, requirement, hmem, hcore⟩
  obtain ⟨hsame, hchances, htossed⟩ := halike chances (chances, []) ⟨rfl, nofun⟩
  exact ⟨_, Prod.ext hsame.symm (Prod.ext hchances rfl), htossed⟩

theorem Rule.run_gather_fragile (h : rule.validate = .ok ()) :
    (rule.gather (fragile toss) forest raised).run (some chances) =
      (((rule.gather toss forest raised).run chances).1,
        some ((rule.gather toss forest raised).run chances).2) := by
  have halike : GoAlike (fun chances whole => whole = some chances)
      (rule.gather toss forest raised) (rule.gather (fragile toss) forest raised) := by
    refine rule.alike_gather fun requirement hmem p hcore => ?_
    obtain ⟨hclamp, hunit⟩ := Rule.tosses_of_validate h hmem hcore
    rw [hclamp]
    rintro chances _ rfl
    have hrun : (fragile toss p).run (some chances) =
        (((toss p).run chances).1, some ((toss p).run chances).2) := if_pos hunit
    rw [hrun]
    exact ⟨rfl, rfl⟩
  obtain ⟨hsame, hchances⟩ := halike chances (some chances) rfl
  exact Prod.ext hsame.symm hchances

end

/-- A rule is accepted if and only if its name is not blank, it asks for an event id only on custom
events, and under all negations each of its chances is a number from zero to one and no selection has
a most that is less than its least. An accepted rule that is evaluated tosses only chances that are
written in it, and these are probabilities: notes of the tosses show nothing else, and a source of
chances that breaks down over anything else does not break down. In both cases the rule gathers what
it gathers otherwise, and the chances go on from the same point. -/
theorem accepted_rules_toss_probabilities (rule : Rule) :
    (rule.validate = .ok () ↔ Text.trim rule.name ≠ "" ∧
      (rule.customId ≠ none → rule.trigger = .custom) ∧
      ∀ requirement ∈ rule.requirements, requirement.WellFormed) ∧
    (rule.validate = .ok () →
      ∀ {σ : Type} (toss : Float → StateM σ Bool) (forest : Forest) (raised : Raised) (chances : σ),
        (∃ tossed, (rule.gather (noting toss) forest raised).run (chances, []) =
            (((rule.gather toss forest raised).run chances).1,
              ((rule.gather toss forest raised).run chances).2, tossed) ∧
          ∀ p ∈ tossed, (0 ≤ p ∧ p ≤ 1) ∧
            ∃ requirement ∈ rule.requirements, requirement.core = .chance p) ∧
        (rule.gather (fragile toss) forest raised).run (some chances) =
          (((rule.gather toss forest raised).run chances).1,
            some ((rule.gather toss forest raised).run chances).2)) := by
  refine ⟨rule.validate_eq_ok_iff, fun h σ toss forest raised chances => ⟨?_, ?_⟩⟩
  · exact Rule.run_gather_noting h
  · exact Rule.run_gather_fragile h

/-- A rule that is lucky in one of four cases, and unlucky in none. -/
def gamble : Rule where
  name := " gamble "
  trigger := .custom
  customId := some "dice"
  requirements := [.not (.not (.chance 0.25)), .absent {}, .not (.chance 0)]

/-- The gamble is accepted, and it makes two tosses, which can be made. -/
theorem gamble_tosses_probabilities :
    gamble.validate = .ok () ∧
      (gamble.gather (fragile lucky) ∅ ⟨⟨0⟩, { kind := .custom, id := some "dice" }⟩).run (some 0) =
        (none, some 2) ∧
      ∃ tossed, (gamble.gather (noting lucky) ∅
          ⟨⟨0⟩, { kind := .custom, id := some "dice" }⟩).run (0, []) = (none, 2, tossed) ∧
        ∀ p ∈ tossed, 0 ≤ p ∧ p ≤ 1 := by
  have hvalid : gamble.validate = .ok () := by rfl
  have hrun : (gamble.gather lucky ∅ ⟨⟨0⟩, { kind := .custom, id := some "dice" }⟩).run 0 =
      (none, 2) := by rfl
  obtain ⟨⟨tossed, hnotes, hunit⟩, hwhole⟩ := (accepted_rules_toss_probabilities gamble).2 hvalid
    lucky ∅ ⟨⟨0⟩, { kind := .custom, id := some "dice" }⟩ 0
  rw [hrun] at hnotes hwhole
  exact ⟨hvalid, hwhole, tossed, hnotes, fun p hmem => (hunit p hmem).1⟩

end CardRules
