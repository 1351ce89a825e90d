import CardRules.Proofs.Forest.Agreement
import CardRules.Proofs.Forest.Lineage

/-!
Containers. A climb of so many steps and the list of ancestors lead to the same card, also where the
root comes first. So distances add up, and all cards of a tree find the same container if the
distance is negative: their root.
-/

namespace CardRules.Forest

variable {forest : Forest} {handle other : Handle}

/-! ## Climbs -/

/-- From a card without an owner there is no way up. -/
theorem climb_of_owner?_eq_none (h : forest.owner? handle = none) (steps : Nat) :
    forest.climb steps handle = handle := by
  cases steps with
  | zero => rfl
  | succ steps =>
    unfold climb
    rw [h]

theorem climb_of_owner? {owner : Handle} (h : forest.owner? handle = some owner) (steps : Nat) :
    forest.climb (steps + 1) handle = forest.climb steps owner := by
  rw [climb, h]

/-- To climb on from where a climb ended is one climb of all steps. -/
theorem climb_climb (forest : Forest) (steps more : Nat) (handle : Handle) :
    forest.climb more (forest.climb steps handle) = forest.climb (steps + more) handle := by
  induction steps generalizing handle with
  | zero => rw [Nat.zero_add, climb]
  | succ steps ih =>
    rw [Nat.add_right_comm]
    cases howner : forest.owner? handle with
    | none => simp only [climb_of_owner?_eq_none howner]
    | some owner => rw [climb_of_owner? howner, climb_of_owner? howner, ih]

section

variable (hsound : forest.Sound)

include hsound

/-- A climb leads to the ancestor of that number, and to the root if there are not so many. -/
theorem climb_succ_eq (steps : Nat) (handle : Handle) :
    forest.climb (steps + 1) handle =
      (forest.ancestors handle)[steps]?.getD (forest.rootOf handle) := by
  induction handle using Sound.climbing hsound generalizing steps with
  | top handle howner =>
    rw [climb_of_owner?_eq_none howner, rootOf_of_owner?_eq_none howner,
      ancestors_of_owner?_eq_none howner]
    rfl
  | up handle owner howner ih =>
    rw [climb_of_owner? howner, ancestors_of_owner? hsound howner, rootOf_of_owner? hsound howner]
    cases steps with
    | zero => rfl
    | succ steps => rw [ih, List.getElem?_cons_succ]

/-! ## Roots -/

/-- All cards on the way up from a card have the same root. -/
theorem rootOf_of_mem_ancestors (h : other ∈ forest.ancestors handle) :
    forest.rootOf other = forest.rootOf handle :=
  (encloses_tree hsound handle).mem_of_under (mem_tree forest handle)
    ((mem_ancestors_iff hsound).1 h)

theorem containerOf_rootOf (distance : Int) :
    forest.containerOf (forest.rootOf handle) distance = forest.rootOf handle := by
  have howner : forest.owner? (forest.rootOf handle) = none := owner?_rootOf hsound handle
  unfold containerOf
  split
  · exact rootOf_of_owner?_eq_none howner
  · exact climb_of_owner?_eq_none howner _

end

/-! ## Distances -/

theorem containerOf_of_neg {distance : Int} (h : distance < 0) (source : Handle) :
    forest.containerOf source distance = forest.rootOf source := by
  unfold containerOf
  rw [if_pos h]

theorem containerOf_of_nonneg {distance : Int} (h : 0 ≤ distance) (source : Handle) :
    forest.containerOf source distance = forest.climb distance.toNat source := by
  unfold containerOf
  rw [if_neg (Int.not_lt.2 h)]

/-- To find the container of a card is to walk up. At the distance zero it is the card itself, and
at any other the ancestor of that number, or the root if the walk is over before. Distances add up.
At a negative distance it is the root: that card has no owner, all ancestors and descendants of a
card have the same one, and no distance leads away from it. -/
theorem containers_are_found_by_walking_up (h : forest.Planted) (source : Handle) :
    (forest.containerOf source 0 = source ∧
      (∀ (steps : Nat) (hsteps : steps < (forest.ancestors source).length),
        forest.containerOf source (steps + 1) = (forest.ancestors source)[steps]) ∧
      ∀ steps : Nat, (forest.ancestors source).length < steps →
        forest.containerOf source steps = forest.rootOf source) ∧
    (∀ first second : Int, 0 ≤ first → 0 ≤ second →
      forest.containerOf (forest.containerOf source first) second =
        forest.containerOf source (first + second)) ∧
    (∀ distance < 0, forest.containerOf source distance = forest.rootOf source) ∧
    forest.owner? (forest.rootOf source) = none ∧
    (∀ other, other ∈ forest.ancestors source ∨ other ∈ forest.descendants source none →
      forest.rootOf other = forest.rootOf source) ∧
    ∀ distance, forest.containerOf (forest.rootOf source) distance = forest.rootOf source := by
  have hsound := h.sound
  have hcontainer (steps : Nat) : forest.containerOf source (steps + 1) =
      (forest.ancestors source)[steps]?.getD (forest.rootOf source) := by
    rw [containerOf_of_nonneg (by omega), ← climb_succ_eq hsound]
    rfl
  refine ⟨⟨rfl, fun steps hsteps => ?_, fun steps hsteps => ?_⟩,
    fun first second hfirst hsecond => ?_, fun distance hneg => containerOf_of_neg hneg source,
    owner?_rootOf hsound source, fun other hother => ?_,
    fun distance => containerOf_rootOf hsound distance⟩
  · rw [hcontainer, List.getElem?_eq_getElem hsteps, Option.getD_some]
  · cases steps with
    | zero => exact absurd hsteps (Nat.not_lt_zero _)
    | succ steps =>
      rw [Int.natCast_succ, hcontainer, List.getElem?_eq_none (Nat.le_of_lt_succ hsteps),
        Option.getD_none]
  · rw [containerOf_of_nonneg hfirst, containerOf_of_nonneg hsecond,
      containerOf_of_nonneg (Int.add_nonneg hfirst hsecond), climb_climb,
      Int.toNat_add hfirst hsecond]
  · rcases hother with habove | hbelow
    · exact rootOf_of_mem_ancestors hsound habove
    · exact (rootOf_of_mem_ancestors hsound ((mem_descendants_none_iff hsound).1 hbelow)).symm

/-- The container of the twig is its branch at the distance one, and the trunk at any greater one
and at a negative one. -/
theorem twigs_are_contained_in_the_trunk :
    ∃ forest : Forest, forest.Planted ∧ forest.ancestors ⟨3⟩ = [⟨2⟩, ⟨0⟩] ∧
      forest.containerOf ⟨3⟩ 1 = ⟨2⟩ ∧ forest.containerOf ⟨3⟩ 7 = ⟨0⟩ ∧
      forest.containerOf ⟨3⟩ (-1) = ⟨0⟩ ∧
      forest.containerOf (forest.containerOf ⟨3⟩ 1) 1 = forest.containerOf ⟨3⟩ 2 ∧
      forest.rootOf ⟨2⟩ = forest.rootOf ⟨3⟩ := by
  have hfacts : orchard.map (fun forest => (forest.ancestors ⟨3⟩, forest.rootOf ⟨3⟩)) =
      some ([⟨2⟩, ⟨0⟩], ⟨0⟩) := by
    decide +kernel
  obtain ⟨forest, hforest, hvalues⟩ := Option.map_eq_some_iff.1 hfacts
  obtain ⟨hup, hroot⟩ := Prod.mk.inj hvalues
  have hplanted := planted_of_orchard hforest
  obtain ⟨⟨-, hsome, hmany⟩, hadd, hnegative, -, htree, -⟩ :=
    containers_are_found_by_walking_up hplanted ⟨3⟩
  have hone := hsome 0 (by simp [hup])
  refine ⟨forest, hplanted, hup, ?_, ?_, ?_, hadd 1 1 (by omega) (by omega), htree ⟨2⟩ (.inl ?_)⟩
  · simpa [hup] using hone
  · exact (hmany 7 (by simp [hup])).trans hroot
  · exact (hnegative (-1) (by omega)).trans hroot
  · rw [hup]
    exact List.mem_cons_self

end CardRules.Forest
