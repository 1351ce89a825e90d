import CardRules.Proofs.Forest.Ancestry
import CardRules.Proofs.Forest.Growth
import Mathlib.Data.Set.Basic

/-!
Trees, and forests that agree on them. The cards that share a root are a tree, and no link leads out
of it. Two forests that have the same cards in such a set cannot be told apart from there: every
walk that begins in it goes the same way in both.
-/

namespace CardRules.Forest

variable {forest other last : Forest} {within : Set Handle} {handle parent child owner : Handle}
  {force : Bool}

/-! ## Trees -/

/-- The tree of a card: all cards with the same root. -/
def tree (forest : Forest) (handle : Handle) : Set Handle :=
  {other | forest.rootOf other = forest.rootOf handle}

theorem mem_tree (forest : Forest) (handle : Handle) : handle ∈ forest.tree handle := rfl

/-- Cards with different roots have no card of their trees in common. -/
theorem tree_subset_compl {handle other : Handle}
    (h : forest.rootOf handle ≠ forest.rootOf other) :
    forest.tree handle ⊆ (forest.tree other)ᶜ :=
  fun _ hleft hright => h (hleft.symm.trans hright)

section

variable (hsound : forest.Sound)

include hsound

theorem encloses_tree (handle : Handle) : forest.Encloses (forest.tree handle) := by
  intro child owner howner
  show forest.rootOf child = _ ↔ forest.rootOf owner = _
  rw [rootOf_of_owner? hsound howner]

end

/-! ## Agreement -/

/-- Two forests of one size have the same cards in a set of handles. -/
structure Agree (within : Set Handle) (forest other : Forest) : Prop where
  size : other.size = forest.size
  cards : ∀ handle ∈ within, other.get? handle = forest.get? handle

theorem Agree.refl (within : Set Handle) (forest : Forest) : Agree within forest forest :=
  ⟨rfl, fun _ _ => rfl⟩

theorem Agree.trans (hfirst : Agree within forest other) (hsecond : Agree within other last) :
    Agree within forest last :=
  ⟨hsecond.size.trans hfirst.size,
    fun handle hin => (hsecond.cards handle hin).trans (hfirst.cards handle hin)⟩

theorem Agree.subset {narrower : Set Handle} (h : Agree within forest other)
    (hsubset : narrower ⊆ within) : Agree narrower forest other :=
  ⟨h.size, fun handle hin => h.cards handle (hsubset hin)⟩

theorem Agree.cards_eq (h : Agree Set.univ forest other) : other.cards = forest.cards :=
  Array.ext_getElem? fun index => h.cards ⟨index⟩ trivial

section

variable (h : Agree within forest other) (hin : handle ∈ within)

include h

theorem Agree.contains_eq (handle : Handle) : other.contains handle = forest.contains handle :=
  contains_eq_of_size_eq h.size handle

theorem Agree.modify (changed : Handle) (change : Card → Card) :
    Agree within (forest.modify changed change) (other.modify changed change) := by
  refine ⟨by rw [size_modify, size_modify, h.size], fun handle hin => ?_⟩
  rw [get?_modify, get?_modify, h.cards handle hin]

theorem Agree.emit (source : Handle) (event : Event) :
    Agree within (forest.emit source event) (other.emit source event) := by
  refine ⟨by rw [size_emit, size_emit, h.size], fun handle hin => ?_⟩
  rw [get?_emit, get?_emit, h.cards handle hin]

include hin

theorem Agree.owner?_eq : other.owner? handle = forest.owner? handle := by
  unfold owner?
  rw [h.cards handle hin]

theorem Agree.children_eq : other.children handle = forest.children handle := by
  unfold children
  rw [h.cards handle hin]

/-- From forests that agree on the owner, a child is removed alike. -/
theorem Agree.remove? (child : Handle) (force : Bool) :
    (forest.remove? handle child force = none ∧ other.remove? handle child force = none) ∨
      ∃ after after', forest.remove? handle child force = some after ∧
        other.remove? handle child force = some after' ∧ Agree within after after' := by
  unfold Forest.remove?
  rw [h.cards handle hin]
  split
  · exact .inl ⟨rfl, rfl⟩
  · split
    · exact .inl ⟨rfl, rfl⟩
    · split
      · exact .inl ⟨rfl, rfl⟩
      · exact .inr ⟨_, _, rfl, rfl, ((h.modify _ _).modify _ _).emit _ _⟩

end

/-! ## What happens elsewhere -/

theorem agree_modify (hout : handle ∉ within) (change : Card → Card) :
    Agree within forest (forest.modify handle change) := by
  refine ⟨size_modify forest handle change, fun found hin => ?_⟩
  rw [get?_modify, if_neg]
  rintro rfl
  exact hout hin

theorem agree_emit (source : Handle) (event : Event) :
    Agree within forest (forest.emit source event) :=
  ⟨size_emit forest source event, fun found _ => get?_emit forest source event found⟩

theorem agree_remove? {after : Forest} (h : forest.remove? parent child force = some after)
    (hparent : parent ∉ within) (hchild : child ∉ within) : Agree within forest after := by
  obtain ⟨_, -, -, -, rfl⟩ := remove?_eq_some h
  exact ((agree_modify hparent _).trans (agree_modify hchild _)).trans (agree_emit child _)

/-! ## Walks -/

section

variable (h : Agree within forest other) (hencloses : forest.Encloses within)
  (hin : handle ∈ within)

include h hencloses

/-- A set that one forest encloses is enclosed by another that agrees on it. -/
theorem Agree.encloses (hsound : forest.Sound) (hsound' : other.Sound) :
    other.Encloses within := by
  intro child owner howner
  constructor
  · intro hin
    rw [h.owner?_eq hin] at howner
    exact (hencloses child owner howner).1 hin
  · -- Seen from the owner, the link is one to a child.
    intro hin
    have hchild := hsound'.mem_children_iff.2 howner
    rw [h.children_eq hin] at hchild
    exact hencloses.holdsChildren hsound owner hin child hchild

theorem Agree.ownersFrom_eq (steps : Nat) {start : Option Handle}
    (hstart : ∀ handle, start = some handle → handle ∈ within) :
    other.ownersFrom steps start = forest.ownersFrom steps start := by
  induction steps generalizing start with
  | zero => rfl
  | succ steps ih =>
    cases start with
    | none => rfl
    | some handle =>
      have hin := hstart handle rfl
      unfold ownersFrom
      rw [h.owner?_eq hin, ih fun owner howner => (hencloses handle owner howner).1 hin]

include hin

theorem Agree.rootOf_eq : other.rootOf handle = forest.rootOf handle := by
  unfold rootOf ancestors
  rw [h.size, h.owner?_eq hin,
    h.ownersFrom_eq hencloses _ fun owner howner => (hencloses handle owner howner).1 hin]

theorem Agree.climb_eq (steps : Nat) : other.climb steps handle = forest.climb steps handle := by
  induction steps generalizing handle with
  | zero => rfl
  | succ steps ih =>
    unfold climb
    rw [h.owner?_eq hin]
    split
    next owner howner => exact ih ((hencloses handle owner howner).1 hin)
    next => rfl

theorem Agree.containerOf_eq (distance : Int) :
    other.containerOf handle distance = forest.containerOf handle distance := by
  unfold containerOf
  rw [h.rootOf_eq hencloses hin, h.climb_eq hencloses hin]

end

section

variable (h : Agree within forest other) (hholds : forest.HoldsChildren within)

include h hholds

theorem Agree.visit_eq (limit : Option Nat) (steps : Nat) {stack : List (Handle × Nat)}
    (hstack : ∀ place ∈ stack, place.1 ∈ within) :
    other.visit limit steps stack = forest.visit limit steps stack := by
  induction steps generalizing stack with
  | zero => rfl
  | succ steps ih =>
    cases stack with
    | nil => rfl
    | cons top stack =>
      have hfirst : top.1 ∈ within := hstack top List.mem_cons_self
      simp only [visit, h.children_eq hfirst, List.cons.injEq, true_and]
      exact ih fun _ hplace => hholds.mem_of_mem_stack hstack hplace

/-- The walk down from a card needs the card itself for nothing but its children. -/
theorem Agree.descendants_eq_of_children (hchildren : other.children handle = forest.children handle)
    (hstart : ∀ child ∈ forest.children handle, child ∈ within) (limit : Option Nat) :
    other.descendants handle limit = forest.descendants handle limit := by
  unfold descendants
  rw [hchildren, h.size, h.visit_eq hholds limit _ fun place hplace => ?_]
  obtain ⟨child, hchild, rfl⟩ := List.mem_map.1 hplace
  exact hstart child hchild

theorem Agree.descendants_eq (hin : handle ∈ within) (limit : Option Nat) :
    other.descendants handle limit = forest.descendants handle limit :=
  h.descendants_eq_of_children hholds (h.children_eq hin) (hholds handle hin) limit

end

end CardRules.Forest
