import CardRules.Forest.Links

/-!
Views of the cards of a forest. Most changes of a forest are about one thing in its cards and leave
the others alone; what they leave alone is a view that all cards keep.
-/

namespace CardRules.Forest

/-- All cards of two forests look alike in a view. -/
def SameView {γ : Type} (view : Card → γ) (forest other : Forest) : Prop :=
  ∀ handle, (other.get? handle).map view = (forest.get? handle).map view

variable {γ : Type} {view : Card → γ} {forest other last : Forest}

namespace SameView

theorem refl (forest : Forest) : SameView view forest forest := fun _ => rfl

theorem trans (hfirst : SameView view forest other) (hsecond : SameView view other last) :
    SameView view forest last := fun handle => (hsecond handle).trans (hfirst handle)

theorem symm (h : SameView view forest other) : SameView view other forest :=
  fun handle => (h handle).symm

theorem exists_get? (h : SameView view forest other) {handle : Handle} {card : Card}
    (hcard : forest.get? handle = some card) :
    ∃ same, other.get? handle = some same ∧ view same = view card := by
  have hview := h handle
  rw [hcard] at hview
  exact Option.map_eq_some_iff.1 hview

theorem contains_eq (h : SameView view forest other) (handle : Handle) :
    other.contains handle = forest.contains handle := by
  rw [Bool.eq_iff_iff, contains_iff, contains_iff]
  constructor
  · rintro ⟨card, hcard⟩
    obtain ⟨same, hsame, -⟩ := h.symm.exists_get? hcard
    exact ⟨same, hsame⟩
  · rintro ⟨card, hcard⟩
    obtain ⟨same, hsame, -⟩ := h.exists_get? hcard
    exact ⟨same, hsame⟩

/-- What is seen in a part of a view is seen in the view. -/
theorem comp {δ : Type} (part : γ → δ) (h : SameView view forest other) :
    SameView (fun card => part (view card)) forest other := by
  intro handle
  have hpart := congrArg (Option.map part) (h handle)
  rwa [Option.map_map, Option.map_map] at hpart

end SameView

theorem sameView_modify {change : Card → Card} (hchange : ∀ card, view (change card) = view card)
    (forest : Forest) (handle : Handle) : SameView view forest (forest.modify handle change) := by
  intro wanted
  rw [get?_modify]
  split
  · rw [Option.map_map]
    congr 1
    funext card
    exact hchange card
  · rfl

theorem sameView_emit (forest : Forest) (source : Handle) (event : Event) :
    SameView view forest (forest.emit source event) := by
  intro handle
  rw [get?_emit]

theorem sameView_foldl_emit (handles : List Handle) (event : Event) (forest : Forest) :
    SameView view forest (handles.foldl (·.emit · event) forest) := by
  induction handles generalizing forest with
  | nil => exact .refl forest
  | cons handle rest ih => exact (sameView_emit forest handle event).trans (ih _)

theorem sameView_emptied (forest : Forest) : SameView view forest forest.emptied := fun _ => rfl

end CardRules.Forest
