import CardRules.Proofs.Forest.Lineage
import CardRules.Workbench

/-!
Outlines: the walk down from a card, and the lines that show it. The walk obeys the equation of a
recursion over children, and nothing else does. The lines of a view show the same cards in the same
order, each of them behind two spaces for every level that it lies below the top.
-/

namespace CardRules

open Workbench

/-- How many steps lead from a card up to one that lies above it, or is it. -/
def Forest.stepsUp (forest : Forest) (top low : Handle) : Nat :=
  (low :: forest.ancestors low).idxOf top

namespace Workbench

variable {forest : Forest}

/-- Whether a line shows a card and not a property. -/
def Line.isCard : Line → Bool
  | .card .. => true
  | .property .. => false

/-- A line shows a card, at the level of the card below a top, which itself stands at level one. The
text of the line is two spaces for each level, and then what the card is known by, its key or else
its id, and its name. -/
def Shows (forest : Forest) (top : Handle) (line : Line) (handle : Handle) : Prop :=
  ∃ card rest, forest.get? handle = some card ∧
    line = .card (1 + forest.stepsUp top handle) handle card ∧
    line.text = String.ofList (List.replicate (2 * (1 + forest.stepsUp top handle)) ' ') ++
      ((card.key?.map Key.text).getD card.id ++ (" \"" ++ card.name ++ "\"" ++ rest))

/-- The line of a card shows it, if it stands at the right level. -/
theorem shows_line {top handle : Handle} {card : Card} (hcard : forest.get? handle = some card) :
    Shows forest top (.card (1 + forest.stepsUp top handle) handle card) handle := by
  obtain ⟨rest, htext⟩ := exists_cardText_eq card
  refine ⟨card, rest, hcard, rfl, ?_⟩
  rw [Line.text, indentation_eq, htext]

/-! ## Levels -/

section

variable (hsound : forest.Sound)

include hsound

theorem stepsUp_eq_depth {top low : Handle}
    (h : low = top ∨ top ∈ forest.ancestors low) :
    forest.stepsUp top low = forest.depth low - forest.depth top := by
  unfold Forest.stepsUp
  induction low using Forest.Sound.climbing hsound with
  | top low howner =>
    have heq : low = top := by
      simpa [Forest.ancestors_of_owner?_eq_none howner] using h
    simp [heq]
  | up low owner howner ih =>
    by_cases heq : low = top
    · simp [heq]
    · have hline := h.resolve_left heq
      rw [Forest.ancestors_of_owner? hsound howner, List.mem_cons] at hline
      have hup := ih (hline.imp_left Eq.symm)
      have hle := Forest.depth_le_depth hsound (hline.imp_left Eq.symm)
      rw [Forest.ancestors_of_owner? hsound howner, List.idxOf_cons_ne _ heq, hup,
        Forest.depth_of_owner? hsound howner]
      omega

/-! ## The cards of a view -/

omit hsound in
/-- A card comes first, then what its children show; properties are no cards. -/
theorem filter_treeLines_of_get? {handle : Handle} {card : Card}
    (hcard : forest.get? handle = some card) (levels level : Nat) :
    (treeLines forest (levels + 1) handle level).filter Line.isCard =
      .card level handle card :: card.children.flatMap fun child =>
        (treeLines forest levels child (level + 1)).filter Line.isCard := by
  have hproperties : (card.properties.map (Line.property level)).filter Line.isCard = [] := by
    simp [Line.isCard]
  rw [treeLines, hcard]
  show (Line.card level handle card :: (card.properties.map (Line.property level) ++
    card.children.flatMap _)).filter Line.isCard = _
  rw [List.filter_cons_of_pos (by rfl), List.filter_append, hproperties, List.nil_append,
    List.filter_flatMap]

/-- The lines of a tree show its cards in pre-order. -/
theorem filter_treeLines (levels : Nat) (handle : Handle) (level : Nat) :
    (treeLines forest (levels + 1) handle level).filter Line.isCard =
      (handle :: forest.below levels handle).filterMap fun low =>
        (forest.get? low).map (.card (level + (forest.depth low - forest.depth handle)) low) := by
  induction levels generalizing handle level with
  | zero =>
    cases hcard : forest.get? handle with
    | none => simp [treeLines, hcard, Forest.below]
    | some card =>
      rw [filter_treeLines_of_get? hcard]
      simp [treeLines, hcard, Forest.below]
  | succ levels ih =>
    cases hcard : forest.get? handle with
    | none =>
      have hnone : forest.children handle = [] := by simp [Forest.children, hcard]
      simp [treeLines, hcard, Forest.below, hnone]
    | some card =>
      rw [filter_treeLines_of_get? hcard, List.filterMap_cons, hcard, Option.map_some,
        Nat.sub_self, Nat.add_zero, Forest.below, List.filterMap_flatMap,
        ← Forest.children_of_get? hcard]
      congr 1
      apply List.flatMap_congr
      intro child hchild
      rw [ih]
      apply List.filterMap_congr
      intro low hlow
      -- What lies in the tree of the child is one level deeper than the child has it.
      have hdepth := Forest.depth_of_owner? hsound (hsound.mem_children_iff.1 hchild)
      have hle : forest.depth child ≤ forest.depth low := by
        apply Forest.depth_le_depth hsound
        exact (List.mem_cons.1 hlow).imp_right (Forest.mem_ancestors_of_mem_below hsound)
      have hlevel : level + 1 + (forest.depth low - forest.depth child) =
          level + (forest.depth low - forest.depth handle) := by
        omega
      rw [hlevel]

theorem forall₂_shows {top : Handle} {handles : List Handle}
    (h : ∀ low ∈ handles, forest.contains low = true ∧
      (low = top ∨ top ∈ forest.ancestors low)) :
    List.Forall₂ (Shows forest top)
      (handles.filterMap fun low =>
        (forest.get? low).map (.card (1 + (forest.depth low - forest.depth top)) low)) handles := by
  induction handles with
  | nil => exact .nil
  | cons low rest ih =>
    obtain ⟨hknown, hline⟩ := h low List.mem_cons_self
    obtain ⟨card, hcard⟩ := Forest.contains_iff.1 hknown
    rw [List.filterMap_cons, hcard, ← stepsUp_eq_depth hsound hline]
    refine .cons (shows_line hcard) (ih fun other hother => ?_)
    exact h other (List.mem_cons_of_mem _ hother)

/-- A view shows the card it starts from and what lies below it, as the walk lists it. -/
theorem forall₂_shows_view {root : Handle} (hknown : forest.contains root = true) :
    List.Forall₂ (Shows forest root) ((view forest root).filter Line.isCard)
      (root :: forest.descendants root none) := by
  have hdepth := Forest.depth_lt_size hsound hknown
  obtain ⟨levels, hlevels⟩ : ∃ levels, forest.size = levels + 1 := ⟨forest.size - 1, by omega⟩
  have hbelow : forest.descendants root none = forest.below levels root := by
    rw [Forest.descendants_eq_below hsound, Option.getD_none]
    symm
    apply Forest.below_eq_below_size hsound
    omega
  unfold view
  rw [hbelow, hlevels, filter_treeLines hsound]
  apply forall₂_shows hsound
  intro low hlow
  rcases List.mem_cons.1 hlow with rfl | hmem
  · exact ⟨hknown, .inl rfl⟩
  · have habove := Forest.mem_ancestors_of_mem_below hsound hmem
    obtain ⟨owner, howner, -⟩ :=
      Relation.TransGen.head'_iff.1 ((Forest.mem_ancestors_iff hsound).1 habove)
    exact ⟨Forest.contains_of_owner? howner, .inr habove⟩

end

/-! ## The law -/

/-- The walk down from a card is right. In a sound forest it is the one function that obeys the
equation of the recursion: with no level left it lists nothing, and otherwise each child in order,
followed at once by the walk from there with one level less. So one level gives the children, and
one level more lists more, in the same order. And the lines for cards in the view of a known card
are those of the card itself and of its descendants, in the order of the walk and each indented
according to its depth. -/
theorem walk_down_is_recursive (hsound : forest.Sound) :
    (∀ walk, forest.IsPreorder walk ↔ walk = forest.descendants) ∧
      (∀ root, forest.descendants root (some 1) = forest.children root) ∧
      (∀ root levels, (forest.descendants root (some levels)).Sublist
        (forest.descendants root (some (levels + 1)))) ∧
      ∀ root, forest.contains root = true →
        List.Forall₂ (Shows forest root) ((view forest root).filter Line.isCard)
          (root :: forest.descendants root none) := by
  refine ⟨fun walk => ⟨fun h => h.eq_descendants hsound, ?_⟩, fun root => ?_,
    fun root levels => ?_, fun root hknown => ?_⟩
  · rintro rfl
    exact Forest.isPreorder_descendants hsound
  · rw [Forest.descendants_eq_below hsound]
    simp [Forest.below]
  · rw [Forest.descendants_eq_below hsound, Forest.descendants_eq_below hsound]
    exact Forest.below_sublist_below_succ forest levels root
  · exact forall₂_shows_view hsound hknown

/-- The twig stands two levels below the trunk, and the view has a line for each card, the last one
behind six spaces. -/
theorem twigs_are_shown_below_the_trunk :
    ∃ forest : Forest, forest.Sound ∧ forest.IsPreorder forest.descendants ∧
      forest.descendants ⟨0⟩ (some 1) = [⟨1⟩, ⟨2⟩] ∧
      forest.descendants ⟨0⟩ (some 2) = [⟨1⟩, ⟨2⟩, ⟨3⟩] ∧
      forest.stepsUp ⟨0⟩ ⟨3⟩ = 2 ∧
      ((view forest ⟨0⟩).map Line.text).getLast? = some "      twig \"twig\" <item> []" ∧
      List.Forall₂ (Shows forest ⟨0⟩) ((view forest ⟨0⟩).filter Line.isCard)
        [⟨0⟩, ⟨1⟩, ⟨2⟩, ⟨3⟩] := by
  have hfacts : Forest.orchard.map (fun forest =>
      (forest.children ⟨0⟩, forest.descendants ⟨0⟩ (some 2), forest.descendants ⟨0⟩ none,
        forest.stepsUp ⟨0⟩ ⟨3⟩, forest.contains ⟨0⟩)) =
      some ([⟨1⟩, ⟨2⟩], [⟨1⟩, ⟨2⟩, ⟨3⟩], [⟨1⟩, ⟨2⟩, ⟨3⟩], 2, true) := by
    decide +kernel
  have htexts : Forest.orchard.map (fun forest => ((view forest ⟨0⟩).map Line.text).getLast?) =
      some (some "      twig \"twig\" <item> []") := by
    decide +kernel
  obtain ⟨forest, hforest, hvalues⟩ := Option.map_eq_some_iff.1 hfacts
  simp only [Prod.mk.injEq] at hvalues
  obtain ⟨hchildren, htwo, hall, hsteps, hknown⟩ := hvalues
  have hsound := (Forest.planted_of_orchard hforest).sound
  obtain ⟨hwalk, hone, -, hshown⟩ := walk_down_is_recursive hsound
  refine ⟨forest, hsound, (hwalk _).2 rfl, ?_, htwo, hsteps, ?_, ?_⟩
  · rw [hone, hchildren]
  · rw [hforest] at htexts
    exact Option.some.inj htexts
  · rw [← hall]
    exact hshown ⟨0⟩ hknown

end Workbench

end CardRules
