import CardRules.Proofs.Forest.Preorder
import CardRules.Proofs.Forest.Relinking

/-!
How a forest grows while rules run in it. A territory is a set of cards that no link leaves. What is
done within a territory leaves all other cards exactly as they are; and a card that was there before
keeps its id and its intrinsic children, and may lose its owner but gets no new one.
-/

namespace CardRules

/-- The intrinsic children of a card, in child order. -/
def Card.intrinsicChildren (card : Card) : List Handle :=
  card.children.filter card.intrinsic.contains

section

variable {card : Card} {child : Handle}

theorem Card.intrinsicChildren_withoutChild (h : card.intrinsic.contains child = false) :
    (card.withoutChild child).intrinsicChildren = card.intrinsicChildren := by
  unfold intrinsicChildren withoutChild
  rw [SortedSet.erase_of_not_contains h]
  -- The child was not among those that the filter keeps.
  induction card.children with
  | nil => rfl
  | cons first rest ih =>
    by_cases heq : first = child
    · simp [heq, h]
    · rw [List.erase_cons_tail (by simpa using heq), List.filter_cons, List.filter_cons, ih]

theorem Card.intrinsicChildren_withChild (h : card.ListsIntrinsic) (hnew : child ∉ card.children)
    (intrinsic : Bool) :
    (card.withChild child intrinsic).intrinsicChildren =
      card.intrinsicChildren ++ if intrinsic then [child] else [] := by
  have hnot := h.contains_eq_false hnew
  unfold intrinsicChildren withChild
  cases intrinsic with
  | false => simp [List.filter_append, hnot]
  | true =>
    have hsame : ∀ handle ∈ card.children,
        (card.intrinsic.insert child).contains handle = card.intrinsic.contains handle := by
      intro handle hmem
      have hne : handle ≠ child := by
        rintro rfl
        exact hnew hmem
      simp [SortedSet.contains_insert, hne]
    simp [List.filter_append, List.filter_congr hsame, SortedSet.contains_insert]

end

/-- What a card keeps while rules run: its id and its intrinsic children. It gets no new owner. -/
structure Card.Kept (card later : Card) : Prop where
  id : later.id = card.id
  intrinsicChildren : later.intrinsicChildren = card.intrinsicChildren
  owner : later.owner = none ∨ later.owner = card.owner

theorem Card.Kept.refl (card : Card) : card.Kept card := ⟨rfl, rfl, .inr rfl⟩

theorem Card.Kept.trans {card later last : Card} (hfirst : card.Kept later)
    (hsecond : later.Kept last) : card.Kept last := by
  refine ⟨hsecond.id.trans hfirst.id,
    hsecond.intrinsicChildren.trans hfirst.intrinsicChildren, ?_⟩
  rcases hsecond.owner with hnone | hsame
  · exact .inl hnone
  · rw [hsame]
    exact hfirst.owner

namespace Forest

variable {within : Set Handle} {origin forest after last : Forest} {parent child handle : Handle}
  {card : Card} {intrinsic force : Bool}

/-! ## Growth -/

/-- A forest grew within a set of handles. -/
structure Grows (within : Set Handle) (forest after : Forest) : Prop where
  outside : ∀ handle, handle ∉ within → after.get? handle = forest.get? handle
  kept : ∀ {handle card}, forest.get? handle = some card →
    ∃ later, after.get? handle = some later ∧ card.Kept later

theorem Grows.ofSame (h : ∀ handle, after.get? handle = forest.get? handle) :
    Grows within forest after := by
  refine ⟨fun handle _ => h handle, fun {handle card} hcard => ?_⟩
  exact ⟨card, (h handle).trans hcard, .refl card⟩

theorem Grows.refl (forest : Forest) : Grows within forest forest := .ofSame fun _ => rfl

theorem Grows.trans (hfirst : Grows within forest after) (hsecond : Grows within after last) :
    Grows within forest last := by
  refine ⟨fun handle hout => ?_, fun hcard => ?_⟩
  · exact (hsecond.outside handle hout).trans (hfirst.outside handle hout)
  · obtain ⟨later, hlater, hkept⟩ := hfirst.kept hcard
    obtain ⟨final, hfinal, hkept'⟩ := hsecond.kept hlater
    exact ⟨final, hfinal, hkept.trans hkept'⟩

theorem Grows.contains (h : Grows within forest after) (hknown : forest.contains handle = true) :
    after.contains handle = true := by
  obtain ⟨card, hcard⟩ := contains_iff.1 hknown
  obtain ⟨later, hlater, -⟩ := h.kept hcard
  exact contains_iff.2 ⟨later, hlater⟩

/-- No card that was there before gets a new owner. -/
theorem Grows.owner? (h : Grows within forest after) {owner : Handle}
    (hknown : forest.contains handle = true) (howner : after.owner? handle = some owner) :
    forest.owner? handle = some owner := by
  obtain ⟨card, hcard⟩ := contains_iff.1 hknown
  obtain ⟨later, hlater, hkept⟩ := h.kept hcard
  rw [owner?_of_get? hlater] at howner
  rw [owner?_of_get? hcard]
  rcases hkept.owner with hnone | hsame
  · rw [hnone] at howner
    cases howner
  · rw [← hsame]
    exact howner

theorem contains_iff_index_lt {forest : Forest} {handle : Handle} :
    forest.contains handle = true ↔ handle.index < forest.size := by
  unfold contains
  exact decide_eq_true_iff

theorem contains_next (forest : Forest) : forest.contains forest.next = false := by
  simp [contains, next]

theorem ne_next_of_contains (h : forest.contains handle = true) : handle ≠ forest.next := by
  rintro rfl
  rw [contains_next] at h
  cases h

/-- A forest grows when a card comes in. -/
theorem Grows.ofNext (hnext : forest.next ∈ within)
    (hsame : ∀ handle, handle ≠ forest.next → after.get? handle = forest.get? handle) :
    Grows within forest after := by
  refine ⟨fun handle hout => hsame handle ?_, fun {handle found} hfound => ?_⟩
  · rintro rfl
    exact hout hnext
  · have hne := ne_next_of_contains (contains_iff.2 ⟨found, hfound⟩)
    exact ⟨found, (hsame handle hne).trans hfound, .refl found⟩

theorem grows_modify {change : Card → Card} (hin : handle ∈ within)
    (hchange : ∀ card : Card, card.Kept (change card)) :
    Grows within forest (forest.modify handle change) := by
  refine ⟨fun other hout => ?_, fun {other card} hcard => ?_⟩
  · rw [get?_modify, if_neg]
    rintro rfl
    exact hout hin
  · rw [get?_modify]
    by_cases heq : other = handle
    · exact ⟨change card, by rw [if_pos heq, hcard]; rfl, hchange card⟩
    · exact ⟨card, by rw [if_neg heq, hcard], .refl card⟩

/-- Without force, an intrinsic child stays where it is. -/
theorem grows_remove? (hsound : forest.Sound) (h : forest.remove? parent child false = some after)
    (hparent : parent ∈ within) (hchild : child ∈ within) : Grows within forest after := by
  have hlookup := get?_remove? h hsound
  refine ⟨fun handle hout => ?_, fun {handle card} hcard => ?_⟩
  · have hnotChild : handle ≠ child := fun heq => hout (heq ▸ hchild)
    have hnotParent : handle ≠ parent := fun heq => hout (heq ▸ hparent)
    rw [hlookup, if_neg hnotChild, if_neg hnotParent]
  · rw [hlookup]
    by_cases heqChild : handle = child
    · subst heqChild
      exact ⟨card.withOwner none, by simp [hcard], rfl, rfl, .inl rfl⟩
    · by_cases heqParent : handle = parent
      · subst heqParent
        obtain ⟨found, hfound, -, hforce, -⟩ := remove?_eq_some h
        obtain rfl : found = card := Option.some.inj (hfound.symm.trans hcard)
        have hnot : found.intrinsic.contains child = false := by
          rw [← Bool.not_eq_true]
          exact fun hmem => absurd (hforce hmem) (by simp)
        exact ⟨found.withoutChild child, by simp [heqChild, hcard], rfl,
          Card.intrinsicChildren_withoutChild hnot, .inr rfl⟩
      · exact ⟨card, by simp [heqChild, heqParent, hcard], .refl card⟩

/-- A card that came in later may be attached: to any card, unless intrinsically, and then to one
that came in later as well. -/
theorem Grows.attach (hgrows : Grows within origin forest) (hsound : forest.Sound)
    (h : forest.attach parent child intrinsic = .ok after) (hparent : parent ∈ within)
    (hchild : child ∈ within) (hnew : origin.contains child = false)
    (hlater : intrinsic = true → origin.contains parent = false) : Grows within origin after := by
  have hlookup := get?_attach h
  refine ⟨fun handle hout => ?_, fun {handle card} hcard => ?_⟩
  · have hnotChild : handle ≠ child := fun heq => hout (heq ▸ hchild)
    have hnotParent : handle ≠ parent := fun heq => hout (heq ▸ hparent)
    rw [hlookup, if_neg hnotChild, if_neg hnotParent]
    exact hgrows.outside handle hout
  · obtain ⟨later, hfound, hkept⟩ := hgrows.kept hcard
    have hknown : origin.contains handle = true := contains_iff.2 ⟨card, hcard⟩
    have hnotChild : handle ≠ child := by
      rintro rfl
      rw [hnew] at hknown
      cases hknown
    rw [hlookup, if_neg hnotChild]
    by_cases heqParent : handle = parent
    · subst heqParent
      refine ⟨later.withChild child intrinsic, by simp [hfound], hkept.trans ?_⟩
      -- The parent was there before, so the child is not an intrinsic one.
      have hplain : intrinsic = false := by
        rw [← Bool.not_eq_true]
        intro hintrinsic
        rw [hlater hintrinsic] at hknown
        cases hknown
      have hnotMem : child ∉ later.children := by
        rw [← children_of_get? hfound]
        exact not_mem_children_of_attach h hsound handle
      have hchildren := Card.intrinsicChildren_withChild (hsound.listsIntrinsic hfound) hnotMem
        intrinsic
      rw [hplain] at hchildren ⊢
      exact ⟨rfl, by simpa using hchildren, .inr rfl⟩
    · exact ⟨later, by simp [heqParent, hfound], hkept⟩

/-! ## Attaching new cards -/

/-- What lies above a card that was there before was there before as well. -/
theorem Grows.contains_of_under (hgrows : Grows within origin forest) (horigin : origin.Sound)
    {low high : Handle} (hlow : origin.contains low = true)
    (hpath : Relation.TransGen forest.Under low high) : origin.contains high = true := by
  induction hpath with
  | single hlink => exact horigin.contains_owner (hgrows.owner? hlow hlink)
  | tail _ hlink ih => exact horigin.contains_owner (hgrows.owner? ih hlink)

/-- A card that came in later and has no owner yet can be attached to any card from before. -/
theorem exists_attach (hgrows : Grows within origin forest) (horigin : origin.Sound)
    (hsound : forest.Sound) (hparent : origin.contains parent = true)
    (hnew : origin.contains child = false) (hcard : forest.get? child = some card)
    (howner : card.owner = none) (intrinsic : Bool) :
    ∃ after, forest.attach parent child intrinsic = .ok after := by
  have hne : child ≠ parent := by
    rintro rfl
    rw [hnew] at hparent
    cases hparent
  have hancestor : child ∉ forest.ancestors parent := by
    intro hmem
    have hpath := (mem_ancestors_iff hsound).1 hmem
    rw [hgrows.contains_of_under horigin hparent hpath] at hnew
    cases hnew
  unfold attach
  simp only [hgrows.contains hparent, hcard, howner, hne, hancestor]
  exact ⟨_, rfl⟩

/-! ## Territories -/

/-- Some cards of a forest that no link leaves. -/
structure Territory (forest : Forest) (cards : Set Handle) : Prop where
  known : ∀ handle ∈ cards, forest.contains handle = true
  owner : ∀ child ∈ cards, ∀ owner, forest.owner? child = some owner → owner ∈ cards
  children : ∀ parent ∈ cards, ∀ child ∈ forest.children parent, child ∈ cards

/-- A card of the forest that lies within a set of handles. -/
def Inside (forest : Forest) (within : Set Handle) (handle : Handle) : Prop :=
  forest.contains handle = true ∧ handle ∈ within

theorem Inside.grow (h : forest.Inside within handle) (hgrows : Grows within forest after) :
    after.Inside within handle := ⟨hgrows.contains h.1, h.2⟩

/-- No link leads into a set of handles or out of it. -/
def Encloses (forest : Forest) (within : Set Handle) : Prop :=
  ∀ child owner, forest.owner? child = some owner → (child ∈ within ↔ owner ∈ within)

/-- A territory and all cards to come are enclosed. -/
theorem Territory.encloses {cards : Set Handle} (h : forest.Territory cards)
    (hsound : forest.Sound) :
    forest.Encloses {handle | forest.contains handle = true → handle ∈ cards} := by
  intro child owner hlink
  have hchild := contains_of_owner? hlink
  have howner := hsound.contains_owner hlink
  constructor
  · exact fun hin _ => h.owner child (hin hchild) owner hlink
  · exact fun hin _ => h.children owner (hin howner) child (hsound.mem_children_iff.2 hlink)

/-- The cards that an enclosed set names are a territory. -/
theorem Encloses.territory (h : forest.Encloses within) (hsound : forest.Sound) :
    forest.Territory {handle | forest.Inside within handle} := by
  refine ⟨fun handle hin => hin.1, fun child hin owner hlink => ?_,
    fun parent hin child hchild => ?_⟩
  · exact ⟨hsound.contains_owner hlink, (h child owner hlink).1 hin.2⟩
  · have hlink := hsound.mem_children_iff.1 hchild
    exact ⟨contains_of_owner? hlink, (h child parent hlink).2 hin.2⟩

theorem Encloses.ofSame (h : forest.Encloses within)
    (howner : ∀ handle, after.owner? handle = forest.owner? handle) : after.Encloses within := by
  intro child owner hlink
  rw [howner] at hlink
  exact h child owner hlink

theorem Encloses.attach (h : forest.Encloses within)
    (hattach : forest.attach parent child intrinsic = .ok after) (hparent : parent ∈ within)
    (hchild : child ∈ within) : after.Encloses within := by
  intro low high hlink
  rw [owner?_attach hattach] at hlink
  split at hlink
  next heq =>
    cases hlink
    simp [heq, hparent, hchild]
  next => exact h low high hlink

theorem Encloses.remove? (h : forest.Encloses within) (hsound : forest.Sound)
    (hremove : forest.remove? parent child force = some after) : after.Encloses within :=
  fun low high hlink => h low high (under_of_remove? hremove hsound hlink)

theorem Encloses.mem_of_under (h : forest.Encloses within) {low high : Handle}
    (hlow : low ∈ within) (hpath : Relation.TransGen forest.Under low high) : high ∈ within := by
  induction hpath with
  | single hlink => exact (h _ _ hlink).1 hlow
  | tail _ hlink ih => exact (h _ _ hlink).1 ih

theorem Encloses.climb (h : forest.Encloses within) {steps : Nat} (hin : handle ∈ within) :
    forest.climb steps handle ∈ within := by
  induction steps generalizing handle with
  | zero => exact hin
  | succ steps ih =>
    unfold Forest.climb
    split
    next owner howner => exact ih ((h handle owner howner).1 hin)
    next => exact hin

theorem contains_climb (hsound : forest.Sound) {steps : Nat}
    (hknown : forest.contains handle = true) :
    forest.contains (forest.climb steps handle) = true := by
  induction steps generalizing handle with
  | zero => exact hknown
  | succ steps ih =>
    unfold climb
    split
    next owner howner => exact ih (hsound.contains_owner howner)
    next => exact hknown

/-- The container of a card lies in its territory. -/
theorem Encloses.containerOf (h : forest.Encloses within) (hsound : forest.Sound)
    (hin : forest.Inside within handle) (distance : Int) :
    forest.Inside within (forest.containerOf handle distance) := by
  unfold Forest.containerOf
  split
  · -- The root is the card itself or the last of its ancestors.
    unfold rootOf
    rcases hancestors : (forest.ancestors handle).getLast? with _ | root
    · have hnil := List.getLast?_eq_none_iff.1 hancestors
      simpa [hnil] using hin
    · have hmem : root ∈ forest.ancestors handle := List.mem_of_getLast? hancestors
      have hpath := (mem_ancestors_iff hsound).1 hmem
      obtain ⟨_, -, hlink⟩ := Relation.TransGen.tail'_iff.1 hpath
      rw [List.getLastD_eq_getLast?, hancestors]
      exact ⟨hsound.contains_owner hlink, h.mem_of_under hin.2 hpath⟩
  · exact ⟨contains_climb hsound hin.1, h.climb hin.2⟩

theorem Encloses.holdsChildren (h : forest.Encloses within) (hsound : forest.Sound) :
    forest.HoldsChildren within :=
  fun parent hin child hchild => (h child parent (hsound.mem_children_iff.1 hchild)).2 hin

end Forest

end CardRules
