import CardRules.Proofs.Forest.Ancestry

/-!
Attaching and removing keep a forest sound.

Each is first given by what it does to the look-up of every card; the rest follows from that. A new
link closes no cycle because the child had no owner and is no ancestor of its new parent, and the
walk that checks this sees all ancestors.
-/

namespace CardRules

/-- The card with one more child, at the end. -/
def Card.withChild (card : Card) (child : Handle) (intrinsic : Bool) : Card :=
  { card with
    children := card.children ++ [child]
    intrinsic := if intrinsic then card.intrinsic.insert child else card.intrinsic }

/-- The card without a child. -/
def Card.withoutChild (card : Card) (child : Handle) : Card :=
  { card with
    children := card.children.erase child
    intrinsic := card.intrinsic.erase child }

/-- The card under an owner, or under none. -/
def Card.withOwner (card : Card) (owner : Option Handle) : Card := { card with owner }

/-- The intrinsic cards of a card are among its children. -/
def Card.ListsIntrinsic (card : Card) : Prop :=
  ∀ child, card.intrinsic.contains child = true → child ∈ card.children

theorem Card.ListsIntrinsic.contains_eq_false {card : Card} (h : card.ListsIntrinsic)
    {child : Handle} (hnew : child ∉ card.children) : card.intrinsic.contains child = false := by
  rw [← Bool.not_eq_true]
  exact fun hmem => hnew (h child hmem)

theorem Card.ListsIntrinsic.withChild {card : Card} (h : card.ListsIntrinsic) (child : Handle)
    (intrinsic : Bool) : (card.withChild child intrinsic).ListsIntrinsic := by
  intro handle hmem
  have hold : handle = child ∨ card.intrinsic.contains handle = true := by
    unfold Card.withChild at hmem
    cases intrinsic with
    | false => exact .inr hmem
    | true => simpa [SortedSet.contains_insert] using hmem
  rcases hold with rfl | hold
  · simp [Card.withChild]
  · exact List.mem_append_left _ (h handle hold)

theorem Card.ListsIntrinsic.withoutChild {card : Card} (h : card.ListsIntrinsic) (child : Handle) :
    (card.withoutChild child).ListsIntrinsic := by
  intro handle hmem
  obtain ⟨hother, hold⟩ : handle ≠ child ∧ card.intrinsic.contains handle = true := by
    simpa [Card.withoutChild, SortedSet.contains_erase] using hmem
  exact (List.mem_erase_of_ne hother).2 (h handle hold)

theorem Card.ListsIntrinsic.withOwner {card : Card} (h : card.ListsIntrinsic)
    (owner : Option Handle) : (card.withOwner owner).ListsIntrinsic := h

namespace Forest

variable {forest after : Forest} {parent child : Handle} {intrinsic force : Bool}

/-! ## Inversion -/

/-- A card can be attached to a known card if it has no owner, is not that card itself and is no
ancestor of it. -/
theorem attach_eq_ok (h : forest.attach parent child intrinsic = .ok after) :
    forest.contains parent = true ∧
      (∃ card, forest.get? child = some card ∧ card.owner = none) ∧
      child ≠ parent ∧ child ∉ forest.ancestors parent ∧
      after = ((forest.modify parent (·.withChild child intrinsic)).modify child
        (·.withOwner (some parent))).emit child (.added parent) := by
  unfold attach at h
  split at h
  · simp at h
  next hparent =>
    split at h
    · simp at h
    next card hcard =>
      split at h
      · simp at h
      next hne =>
        split at h
        · simp at h
        next howner =>
          split at h
          · simp at h
          next hancestor =>
            exact ⟨by simpa using hparent, ⟨card, hcard, howner⟩, hne, hancestor,
              (Except.ok.inj h).symm⟩

/-- A card is removed if it is a child, and by force if it is intrinsic. -/
theorem remove?_eq_some (h : forest.remove? parent child force = some after) :
    ∃ card, forest.get? parent = some card ∧ child ∈ card.children ∧
      (card.intrinsic.contains child = true → force = true) ∧
      after = ((forest.modify parent (·.withoutChild child)).modify child
        (·.withOwner none)).emit child (.removed parent) := by
  unfold remove? at h
  split at h
  · simp at h
  next card hcard =>
    split at h
    · simp at h
    next hchild =>
      split at h
      · simp at h
      next hforce =>
        refine ⟨card, hcard, not_not.1 hchild, fun hmem => ?_, (Option.some.inj h).symm⟩
        simpa [hmem] using hforce

/-- What is not about links looks the same when a card is attached. -/
theorem sameView_of_attach {γ : Type} {view : Card → γ}
    (h : forest.attach parent child intrinsic = .ok after)
    (hchild : ∀ card : Card, view (card.withChild child intrinsic) = view card)
    (howner : ∀ card : Card, view (card.withOwner (some parent)) = view card) :
    SameView view forest after := by
  obtain ⟨-, -, -, -, rfl⟩ := attach_eq_ok h
  exact ((sameView_modify hchild forest parent).trans (sameView_modify howner _ child)).trans
    (sameView_emit _ _ _)

theorem sameView_of_remove? {γ : Type} {view : Card → γ}
    (h : forest.remove? parent child force = some after)
    (hchild : ∀ card : Card, view (card.withoutChild child) = view card)
    (howner : ∀ card : Card, view (card.withOwner none) = view card) :
    SameView view forest after := by
  obtain ⟨_, -, -, -, rfl⟩ := remove?_eq_some h
  exact ((sameView_modify hchild forest parent).trans (sameView_modify howner _ child)).trans
    (sameView_emit _ _ _)

/-! ## Look-ups -/

section

variable (h : forest.attach parent child intrinsic = .ok after)

include h

theorem get?_attach (handle : Handle) :
    after.get? handle =
      if handle = child then (forest.get? child).map (·.withOwner (some parent))
      else if handle = parent then (forest.get? parent).map (·.withChild child intrinsic)
      else forest.get? handle := by
  obtain ⟨-, -, hne, -, rfl⟩ := attach_eq_ok h
  rw [get?_emit, get?_modify, get?_modify]
  by_cases hchild : handle = child
  · subst hchild
    simp [hne]
  · by_cases hparent : handle = parent
    · subst hparent
      simp [hchild]
    · simp [hchild, hparent]

theorem size_attach : after.size = forest.size := by
  obtain ⟨-, -, -, -, rfl⟩ := attach_eq_ok h
  simp

theorem owner?_attach (handle : Handle) :
    after.owner? handle = if handle = child then some parent else forest.owner? handle := by
  obtain ⟨-, ⟨card, hcard, -⟩, hne, -, -⟩ := attach_eq_ok h
  unfold owner?
  rw [get?_attach h]
  by_cases hchild : handle = child
  · simp [hchild, hcard, Card.withOwner]
  · by_cases hparent : handle = parent
    · subst hparent
      cases forest.get? handle <;> simp [hchild, Card.withChild]
    · simp [hchild, hparent]

theorem children_attach (handle : Handle) :
    after.children handle =
      if handle = parent then forest.children handle ++ [child] else forest.children handle := by
  obtain ⟨hknown, -, hne, -, -⟩ := attach_eq_ok h
  obtain ⟨card, hcard⟩ := contains_iff.1 hknown
  unfold children
  rw [get?_attach h]
  by_cases hchild : handle = child
  · subst hchild
    cases forest.get? handle <;> simp [hne, Card.withOwner]
  · by_cases hparent : handle = parent
    · subst hparent
      simp [hchild, hcard, Card.withChild]
    · simp [hchild, hparent]

end

section

variable (h : forest.remove? parent child force = some after) (hsound : forest.Sound)

include h

theorem owner?_of_remove? (hsound : forest.Sound) : forest.owner? child = some parent := by
  obtain ⟨card, hcard, hmem, -, -⟩ := remove?_eq_some h
  rw [← children_of_get? hcard] at hmem
  exact hsound.mem_children_iff.1 hmem

theorem size_remove? : after.size = forest.size := by
  obtain ⟨_, -, -, -, rfl⟩ := remove?_eq_some h
  simp

include hsound

theorem ne_of_remove? : child ≠ parent := by
  rintro rfl
  exact hsound.acyclic child (.single (owner?_of_remove? h hsound))

theorem get?_remove? (handle : Handle) :
    after.get? handle =
      if handle = child then (forest.get? child).map (·.withOwner none)
      else if handle = parent then (forest.get? parent).map (·.withoutChild child)
      else forest.get? handle := by
  have hne := ne_of_remove? h hsound
  obtain ⟨_, -, -, -, rfl⟩ := remove?_eq_some h
  rw [get?_emit, get?_modify, get?_modify]
  by_cases hchild : handle = child
  · subst hchild
    simp [hne]
  · by_cases hparent : handle = parent
    · subst hparent
      simp [hchild]
    · simp [hchild, hparent]

theorem owner?_remove? (handle : Handle) :
    after.owner? handle = if handle = child then none else forest.owner? handle := by
  unfold owner?
  rw [get?_remove? h hsound]
  by_cases hchild : handle = child
  · subst hchild
    cases forest.get? handle <;> simp [Card.withOwner]
  · by_cases hparent : handle = parent
    · subst hparent
      cases forest.get? handle <;> simp [hchild, Card.withoutChild]
    · simp [hchild, hparent]

theorem children_remove? (handle : Handle) :
    after.children handle =
      if handle = parent then (forest.children handle).erase child
      else forest.children handle := by
  have hne := ne_of_remove? h hsound
  obtain ⟨card, hcard, -, -, -⟩ := remove?_eq_some h
  unfold children
  rw [get?_remove? h hsound]
  by_cases hchild : handle = child
  · subst hchild
    cases forest.get? handle <;> simp [hne, Card.withOwner]
  · by_cases hparent : handle = parent
    · subst hparent
      simp [hchild, hcard, Card.withoutChild]
    · simp [hchild, hparent]

end

/-! ## Soundness -/

theorem contains_eq_of_size_eq {other : Forest} (h : other.size = forest.size) (handle : Handle) :
    other.contains handle = forest.contains handle := by
  unfold contains
  rw [h]

theorem Sound.listsIntrinsic (hsound : forest.Sound) {handle : Handle} {card : Card}
    (h : forest.get? handle = some card) : card.ListsIntrinsic :=
  fun _ hmem => hsound.mem_children_of_intrinsic h hmem

section

variable (h : forest.attach parent child intrinsic = .ok after)

include h

/-- A path that uses the new link leads to the child first, and goes on from the parent. -/
theorem transGen_attach {low high : Handle} (hpath : Relation.TransGen after.Under low high) :
    Relation.TransGen forest.Under low high ∨
      Relation.ReflTransGen forest.Under low child ∧
        Relation.ReflTransGen forest.Under parent high := by
  have hstep : ∀ {a b : Handle}, after.Under a b → a = child ∧ b = parent ∨ forest.Under a b := by
    intro a b hab
    unfold Under at hab
    rw [owner?_attach h] at hab
    split at hab
    next hchild => exact .inl ⟨hchild, (Option.some.inj hab).symm⟩
    next => exact .inr hab
  -- The path grows upwards; a second use of the link forgets what was between the two.
  induction hpath with
  | single hab =>
    rcases hstep hab with ⟨rfl, rfl⟩ | hab
    · exact .inr ⟨.refl, .refl⟩
    · exact .inl (.single hab)
  | tail _ hbc ih =>
    rcases hstep hbc with ⟨rfl, rfl⟩ | hbc
    · rcases ih with hpath | ⟨hlow, -⟩
      · exact .inr ⟨hpath.to_reflTransGen, .refl⟩
      · exact .inr ⟨hlow, .refl⟩
    · rcases ih with hpath | ⟨hlow, hhigh⟩
      · exact .inl (hpath.tail hbc)
      · exact .inr ⟨hlow, hhigh.tail hbc⟩

variable (hsound : forest.Sound)

include hsound

theorem acyclic_attach (handle : Handle) : ¬ Relation.TransGen after.Under handle handle := by
  obtain ⟨-, -, hne, hancestor, -⟩ := attach_eq_ok h
  intro hcycle
  rcases transGen_attach h hcycle with hcycle | ⟨hlow, hhigh⟩
  · exact hsound.acyclic handle hcycle
  · -- The old links would lead from the parent up to its own new child.
    rcases Relation.reflTransGen_iff_eq_or_transGen.1 (hhigh.trans hlow) with heq | hpath
    · exact hne heq
    · exact hancestor ((mem_ancestors_iff hsound).2 hpath)

/-- A card without an owner is in no list of children. -/
theorem not_mem_children_of_attach (other : Handle) : child ∉ forest.children other := by
  obtain ⟨-, ⟨card, hcard, howner⟩, -⟩ := attach_eq_ok h
  intro hmem
  rw [hsound.mem_children_iff, owner?_of_get? hcard, howner] at hmem
  simp at hmem

theorem mem_children_attach_iff {other handle : Handle} :
    handle ∈ after.children other ↔ after.owner? handle = some other := by
  have hnot := not_mem_children_of_attach h hsound
  rw [children_attach h, owner?_attach h]
  by_cases hhandle : handle = child
  · subst hhandle
    by_cases hother : other = parent
    · simp [hother]
    · simpa [hother, Ne.symm hother] using hnot other
  · rw [if_neg hhandle, ← hsound.mem_children_iff]
    split <;> simp [hhandle]

theorem nodup_children_attach (other : Handle) : (after.children other).Nodup := by
  rw [children_attach h]
  split
  · refine List.nodup_append.2 ⟨hsound.nodup_children other, List.pairwise_singleton _ child, ?_⟩
    intro handle hmem last hlast
    rw [List.mem_singleton.1 hlast]
    rintro rfl
    exact not_mem_children_of_attach h hsound other hmem
  · exact hsound.nodup_children other

theorem listsIntrinsic_attach {handle : Handle} {card : Card}
    (hcard : after.get? handle = some card) : card.ListsIntrinsic := by
  rw [get?_attach h] at hcard
  split at hcard
  · obtain ⟨old, hold, rfl⟩ := Option.map_eq_some_iff.1 hcard
    exact (hsound.listsIntrinsic hold).withOwner (some parent)
  · split at hcard
    · obtain ⟨old, hold, rfl⟩ := Option.map_eq_some_iff.1 hcard
      exact (hsound.listsIntrinsic hold).withChild child intrinsic
    · exact hsound.listsIntrinsic hcard

end

theorem Sound.attach (hsound : forest.Sound)
    (h : forest.attach parent child intrinsic = .ok after) : after.Sound := by
  refine .ofLinks (mem_children_attach_iff h hsound) (nodup_children_attach h hsound)
    (acyclic_attach h hsound) (fun hcard => listsIntrinsic_attach h hsound hcard _) ?_
  intro handle owner howner
  obtain ⟨hknown, -⟩ := attach_eq_ok h
  rw [contains_eq_of_size_eq (size_attach h)]
  rw [owner?_attach h] at howner
  split at howner
  · exact Option.some.inj howner ▸ hknown
  · exact hsound.contains_owner howner

section

variable (h : forest.remove? parent child force = some after) (hsound : forest.Sound)

include h hsound

/-- Where a card is removed no link is new. -/
theorem under_of_remove? {low high : Handle} (hlink : after.Under low high) :
    forest.Under low high := by
  unfold Under at hlink ⊢
  rw [owner?_remove? h hsound] at hlink
  split at hlink
  · simp at hlink
  · exact hlink

theorem mem_children_remove?_iff {other handle : Handle} :
    handle ∈ after.children other ↔ after.owner? handle = some other := by
  have howner := owner?_of_remove? h hsound
  rw [children_remove? h hsound, owner?_remove? h hsound]
  by_cases hhandle : handle = child
  · subst hhandle
    by_cases hother : other = parent
    · -- The child is erased once, so it must not have been listed twice.
      subst hother
      simpa using (hsound.nodup_children other).not_mem_erase
    · simpa [hother, hsound.mem_children_iff, howner] using Ne.symm hother
  · rw [if_neg hhandle, ← hsound.mem_children_iff]
    split
    · exact List.mem_erase_of_ne hhandle
    · rfl

theorem nodup_children_remove? (other : Handle) : (after.children other).Nodup := by
  rw [children_remove? h hsound]
  split
  · exact (hsound.nodup_children other).erase child
  · exact hsound.nodup_children other

theorem listsIntrinsic_remove? {handle : Handle} {card : Card}
    (hcard : after.get? handle = some card) : card.ListsIntrinsic := by
  rw [get?_remove? h hsound] at hcard
  split at hcard
  · obtain ⟨old, hold, rfl⟩ := Option.map_eq_some_iff.1 hcard
    exact (hsound.listsIntrinsic hold).withOwner none
  · split at hcard
    · obtain ⟨old, hold, rfl⟩ := Option.map_eq_some_iff.1 hcard
      exact (hsound.listsIntrinsic hold).withoutChild child
    · exact hsound.listsIntrinsic hcard

end

theorem Sound.remove? (hsound : forest.Sound)
    (h : forest.remove? parent child force = some after) : after.Sound := by
  have hold : ∀ low high, after.Under low high → forest.Under low high :=
    fun _ _ hlink => under_of_remove? h hsound hlink
  refine .ofLinks (mem_children_remove?_iff h hsound) (nodup_children_remove? h hsound) ?_
    (fun hcard => listsIntrinsic_remove? h hsound hcard _) ?_
  · exact fun handle hcycle =>
      hsound.acyclic handle (Relation.TransGen.mono hold handle handle hcycle)
  · intro handle owner howner
    rw [contains_eq_of_size_eq (size_remove? h)]
    exact hsound.contains_owner (hold handle owner howner)

end Forest

end CardRules
