import CardRules.Proofs.Forest.Views
import Mathlib.Logic.Relation

/-!
Sound forests: owners and children agree, no card is listed twice, nothing lies below itself, and
all links lead to cards of the forest.

Soundness is a matter of the links alone. What changes no links keeps it, and so does a new card
without links; attaching and removing are the subject of `CardRules.Proofs.Forest.Relinking`.
-/

namespace CardRules

/-- The links of a card: its owner, its children and those of them that are intrinsic. -/
def Card.links (card : Card) : Option Handle × List Handle × SortedSet Handle :=
  (card.owner, card.children, card.intrinsic)

namespace Forest

/-- A card stands under its owner. -/
def Under (forest : Forest) (child owner : Handle) : Prop := forest.owner? child = some owner

/-- A forest in which the links of all cards fit together. -/
structure Sound (forest : Forest) : Prop where
  /-- A card is listed with the children of its owner, and only there. -/
  mem_children_iff : ∀ {parent child},
    child ∈ forest.children parent ↔ forest.owner? child = some parent
  /-- No list of children names a card twice. -/
  nodup_children : ∀ parent, (forest.children parent).Nodup
  /-- No card is listed with the children of two cards. -/
  parent_unique : ∀ {parent other child},
    child ∈ forest.children parent → child ∈ forest.children other → parent = other
  /-- No card is reached from itself through owners. -/
  acyclic : ∀ handle, ¬ Relation.TransGen forest.Under handle handle
  /-- Intrinsic cards are children. -/
  mem_children_of_intrinsic : ∀ {parent card child}, forest.get? parent = some card →
    card.intrinsic.contains child = true → child ∈ card.children
  contains_owner : ∀ {child owner},
    forest.owner? child = some owner → forest.contains owner = true
  contains_child : ∀ {parent child},
    child ∈ forest.children parent → forest.contains child = true
  contains_intrinsic : ∀ {parent card child}, forest.get? parent = some card →
    card.intrinsic.contains child = true → forest.contains child = true

/-! ## Looking up links -/

variable {forest other : Forest}

theorem children_of_get? {handle : Handle} {card : Card} (h : forest.get? handle = some card) :
    forest.children handle = card.children := by
  unfold children
  rw [h]
  rfl

theorem owner?_of_get? {handle : Handle} {card : Card} (h : forest.get? handle = some card) :
    forest.owner? handle = card.owner := by
  unfold owner?
  rw [h]
  rfl

theorem contains_of_owner? {child owner : Handle} (h : forest.owner? child = some owner) :
    forest.contains child = true := by
  obtain ⟨card, hcard, -⟩ := Option.bind_eq_some_iff.1 h
  exact contains_iff.2 ⟨card, hcard⟩

/-- The rest of soundness follows from the agreement of owners and children, and from what no link
can show twice. -/
theorem Sound.ofLinks
    (mem_children_iff : ∀ {parent child},
      child ∈ forest.children parent ↔ forest.owner? child = some parent)
    (nodup_children : ∀ parent, (forest.children parent).Nodup)
    (acyclic : ∀ handle, ¬ Relation.TransGen forest.Under handle handle)
    (mem_children_of_intrinsic : ∀ {parent card child}, forest.get? parent = some card →
      card.intrinsic.contains child = true → child ∈ card.children)
    (contains_owner : ∀ {child owner},
      forest.owner? child = some owner → forest.contains owner = true) : forest.Sound where
  mem_children_iff := mem_children_iff
  nodup_children := nodup_children
  parent_unique hp ho :=
    Option.some.inj ((mem_children_iff.1 hp).symm.trans (mem_children_iff.1 ho))
  acyclic := acyclic
  mem_children_of_intrinsic := mem_children_of_intrinsic
  contains_owner := contains_owner
  contains_child h := contains_of_owner? (mem_children_iff.1 h)
  contains_intrinsic hcard h := by
    have hchild := mem_children_of_intrinsic hcard h
    rw [← children_of_get? hcard] at hchild
    exact contains_of_owner? (mem_children_iff.1 hchild)

theorem sound_empty : (∅ : Forest).Sound := by
  have howner : ∀ handle, (∅ : Forest).owner? handle = none := fun handle => by simp [owner?]
  have hchildren : ∀ handle, (∅ : Forest).children handle = [] := fun handle => by simp [children]
  refine .ofLinks ?_ ?_ ?_ ?_ ?_
  · intro parent child
    simp [howner, hchildren]
  · intro parent
    simp [hchildren]
  · intro handle h
    obtain ⟨_, hunder, -⟩ := Relation.TransGen.head'_iff.1 h
    simp [Under, howner] at hunder
  · intro parent card child h
    simp at h
  · intro child owner h
    simp [howner] at h

/-! ## What leaves the links alone -/

namespace SameView

variable (h : SameView Card.links forest other)

include h

theorem owner?_eq (handle : Handle) : other.owner? handle = forest.owner? handle := by
  have hlinks := h handle
  unfold owner?
  cases hf : forest.get? handle <;> cases ho : other.get? handle <;>
    simp_all [Card.links]

theorem children_eq (handle : Handle) : other.children handle = forest.children handle := by
  have hlinks := h handle
  unfold children
  cases hf : forest.get? handle <;> cases ho : other.get? handle <;>
    simp_all [Card.links]

theorem sound (hsound : forest.Sound) : other.Sound := by
  have hunder : other.Under = forest.Under := by
    funext child owner
    unfold Under
    rw [h.owner?_eq]
  refine .ofLinks ?_ ?_ ?_ ?_ ?_
  · intro parent child
    rw [h.children_eq, h.owner?_eq]
    exact hsound.mem_children_iff
  · intro parent
    rw [h.children_eq]
    exact hsound.nodup_children parent
  · rw [hunder]
    exact hsound.acyclic
  · intro parent card child hcard hmem
    obtain ⟨old, hold, heq⟩ := h.symm.exists_get? hcard
    obtain ⟨-, hchildren, hintrinsic⟩ : _ ∧ old.children = card.children ∧
        old.intrinsic = card.intrinsic := by simpa [Card.links] using heq
    rw [← hintrinsic] at hmem
    rw [← hchildren]
    exact hsound.mem_children_of_intrinsic hold hmem
  · intro child owner howner
    rw [h.owner?_eq] at howner
    rw [h.contains_eq]
    exact hsound.contains_owner howner

end SameView

theorem Sound.modify {change : Card → Card} (hsound : forest.Sound)
    (hchange : ∀ card, (change card).links = card.links) (handle : Handle) :
    (forest.modify handle change).Sound :=
  (sameView_modify hchange forest handle).sound hsound

theorem Sound.emit (hsound : forest.Sound) (source : Handle) (event : Event) :
    (forest.emit source event).Sound :=
  (sameView_emit forest source event).sound hsound

theorem Sound.emptied (hsound : forest.Sound) : forest.emptied.Sound :=
  (sameView_emptied forest).sound hsound

/-! ## A new card -/

theorem get?_next (forest : Forest) : forest.get? forest.next = none := by
  simp [get?, next, size]

theorem contains_insert (forest : Forest) (card : Card) {handle : Handle}
    (h : forest.contains handle = true) : (forest.insert card).contains handle = true := by
  simp only [contains, size_insert, decide_eq_true_iff] at h ⊢
  omega

section

variable {card : Card} (hfresh : card.IsFresh)

include hfresh

theorem owner?_insert (handle : Handle) :
    (forest.insert card).owner? handle = forest.owner? handle := by
  unfold owner?
  rw [get?_insert]
  split
  next h => simp [h, get?_next, hfresh.owner]
  next => rfl

theorem children_insert (handle : Handle) :
    (forest.insert card).children handle = forest.children handle := by
  unfold children
  rw [get?_insert]
  split
  next h => simp [h, get?_next, hfresh.children]
  next => rfl

/-- A fresh card has no links, so it comes in as a tree of its own. -/
theorem Sound.insert (hsound : forest.Sound) : (forest.insert card).Sound := by
  have hunder : (forest.insert card).Under = forest.Under := by
    funext child owner
    unfold Under
    rw [owner?_insert hfresh]
  refine .ofLinks ?_ ?_ ?_ ?_ ?_
  · intro parent child
    rw [children_insert hfresh, owner?_insert hfresh]
    exact hsound.mem_children_iff
  · intro parent
    rw [children_insert hfresh]
    exact hsound.nodup_children parent
  · rw [hunder]
    exact hsound.acyclic
  · intro parent other child hother hmem
    rw [get?_insert] at hother
    split at hother
    · obtain rfl := Option.some.inj hother
      rw [hfresh.intrinsic] at hmem
      simp at hmem
    · exact hsound.mem_children_of_intrinsic hother hmem
  · intro child owner howner
    rw [owner?_insert hfresh] at howner
    exact contains_insert forest card (hsound.contains_owner howner)

end

end Forest

end CardRules
