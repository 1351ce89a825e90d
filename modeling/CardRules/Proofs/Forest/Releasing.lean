import CardRules.Proofs.Forest.Relinking

/-!
Cards that are released. They have no owner any more and are in no list of children; everything else
about all cards is as it was, whatever the order in which they were released. To remove a child that
is not intrinsic is to release it.
-/

namespace CardRules

/-- A child that is not marked is taken away from the list of children only. -/
theorem Card.withoutChild_eq {card : Card} {child : Handle} (hnodup : card.children.Nodup)
    (hunmarked : card.intrinsic.contains child = false) :
    card.withoutChild child = { card with children := card.children.filter (· ∉ [child]) } := by
  have hchildren : card.children.erase child = card.children.filter (· ∉ [child]) := by
    rw [hnodup.erase_eq_filter]
    simp [bne, Bool.beq_eq_decide_eq]
  unfold withoutChild
  rw [hchildren, SortedSet.erase_of_not_contains hunmarked]

namespace Forest

variable {forest after last : Forest} {parent child : Handle} {gone more : List Handle}

/-- Some cards were released: they have no owner any more, and they are nobody's children. -/
def Released (gone : List Handle) (forest after : Forest) : Prop :=
  ∀ handle, after.get? handle = (forest.get? handle).map fun card =>
    { card with
      owner := if handle ∈ gone then none else card.owner
      children := card.children.filter (· ∉ gone) }

theorem Released.refl (forest : Forest) : Released [] forest forest := by
  intro handle
  simp

theorem Released.trans (h : Released gone forest after) (h' : Released more after last) :
    Released (gone ++ more) forest last := by
  intro handle
  rw [h' handle, h handle, Option.map_map]
  congr 1
  funext card
  have hchildren : (card.children.filter (· ∉ gone)).filter (· ∉ more) =
      card.children.filter (· ∉ gone ++ more) := by
    rw [List.filter_filter]
    refine List.filter_congr fun child _ => ?_
    simp [Bool.and_comm]
  simp only [Function.comp_apply, hchildren, List.mem_append]
  by_cases hgone : handle ∈ gone <;> by_cases hmore : handle ∈ more <;> simp [hgone, hmore]

theorem Released.owner? (h : Released gone forest after) (handle : Handle) :
    after.owner? handle = if handle ∈ gone then none else forest.owner? handle := by
  unfold Forest.owner?
  rw [h handle]
  cases forest.get? handle <;> simp

theorem Released.children (h : Released gone forest after) (handle : Handle) :
    after.children handle = (forest.children handle).filter (· ∉ gone) := by
  unfold Forest.children
  rw [h handle]
  cases forest.get? handle <;> rfl

/-- What is seen of cards apart from their links stays the same. -/
theorem Released.sameView {γ : Type} {view : Card → γ} (h : Released gone forest after)
    (hlinks : ∀ (card : Card) owner children, view { card with owner, children } = view card) :
    SameView view forest after := by
  intro handle
  rw [h handle, Option.map_map]
  congr 1
  funext card
  exact hlinks card _ _

/-- Without force, the child that is removed is released. -/
theorem released_remove? (hsound : forest.Sound)
    (h : forest.remove? parent child false = some after) : Released [child] forest after := by
  have howner := owner?_of_remove? h hsound
  have hne := ne_of_remove? h hsound
  -- No card but the parent has the child among its children.
  have hnowhere : ∀ {handle card}, forest.get? handle = some card → handle ≠ parent →
      card.children.filter (· ∉ [child]) = card.children := by
    intro handle card hcard hother
    refine List.filter_eq_self.2 fun low hlow => ?_
    rw [← children_of_get? hcard, hsound.mem_children_iff] at hlow
    have hlow' : low ≠ child := by
      rintro rfl
      exact hother (Option.some.inj (hlow.symm.trans howner))
    simpa using hlow'
  intro handle
  rw [get?_remove? h hsound]
  by_cases hchild : handle = child
  · subst hchild
    rw [if_pos rfl]
    cases hcard : forest.get? handle with
    | none => rfl
    | some card =>
      rw [Option.map_some, Option.map_some, hnowhere hcard hne]
      simp [Card.withOwner]
  · by_cases hparent : handle = parent
    · subst hparent
      obtain ⟨card, hcard, -, hforce, -⟩ := remove?_eq_some h
      have hunmarked : card.intrinsic.contains child = false := by simpa using hforce
      have hnodup : card.children.Nodup := by
        rw [← children_of_get? hcard]
        exact hsound.nodup_children handle
      simp [hchild, hcard, Card.withoutChild_eq hnodup hunmarked]
    · rw [if_neg hchild, if_neg hparent]
      cases hcard : forest.get? handle with
      | none => rfl
      | some card =>
        rw [Option.map_some, hnowhere hcard hparent]
        simp [hchild]

end Forest

end CardRules
