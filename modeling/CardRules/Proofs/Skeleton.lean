import CardRules.Proofs.Declarative

/-!
The skeleton of cards: their ids, their keys, and what is built into what. Rules without callbacks
leave it alone, because they neither take cards out of the registry nor remove anything by force.
-/

namespace CardRules

/-- A card has another one marked as intrinsic. -/
def Forest.Marks (forest : Forest) (parent child : Handle) : Prop :=
  ∃ card, forest.get? parent = some card ∧ card.intrinsic.contains child = true

/-- A card is built into another: it is an intrinsic one of its children. -/
structure Forest.BuiltIn (forest : Forest) (parent child : Handle) : Prop where
  marked : forest.Marks parent child
  listed : child ∈ forest.children parent
  owned : forest.owner? child = some parent

section

variable {forest after : Forest} {parent child : Handle}

/-- In a sound forest the mark says the rest. -/
theorem Forest.Marks.builtIn (h : forest.Marks parent child) (hsound : forest.Sound) :
    forest.BuiltIn parent child := by
  obtain ⟨card, hcard, hmem⟩ := h
  have hlisted : child ∈ forest.children parent := by
    rw [children_of_get? hcard]
    exact hsound.mem_children_of_intrinsic hcard hmem
  exact ⟨⟨card, hcard, hmem⟩, hlisted, hsound.mem_children_iff.1 hlisted⟩

theorem Forest.Marks.sameView (h : forest.Marks parent child)
    (hview : SameView Card.intrinsic forest after) : after.Marks parent child := by
  obtain ⟨card, hcard, hmem⟩ := h
  obtain ⟨same, hsame, heq⟩ := hview.exists_get? hcard
  exact ⟨same, hsame, by rw [heq, hmem]⟩

theorem Forest.Marks.modify (h : forest.Marks parent child) (handle : Handle)
    (change : Card → Card)
    (hchange : ∀ card, forest.get? handle = some card → card.intrinsic.contains child = true →
      (change card).intrinsic.contains child = true) :
    (forest.modify handle change).Marks parent child := by
  obtain ⟨card, hcard, hmem⟩ := h
  by_cases heq : parent = handle
  · subst heq
    exact ⟨change card, by rw [get?_modify, if_pos rfl, hcard]; rfl, hchange card hcard hmem⟩
  · exact ⟨card, by rw [get?_modify, if_neg heq, hcard], hmem⟩

theorem Forest.Marks.insert (h : forest.Marks parent child) (made : Card) :
    (forest.insert made).Marks parent child := by
  obtain ⟨card, hcard, hmem⟩ := h
  have hne := ne_next_of_contains (contains_iff.2 ⟨card, hcard⟩)
  exact ⟨card, by rw [get?_insert, if_neg hne, hcard], hmem⟩

theorem Forest.Marks.attach (h : forest.Marks parent child) {owner new : Handle} {intrinsic : Bool}
    (hattached : forest.attach owner new intrinsic = .ok after) : after.Marks parent child := by
  obtain ⟨-, -, -, -, rfl⟩ := attach_eq_ok hattached
  have hlinked := h.modify owner (·.withChild new intrinsic) fun card _ hmem => by
    unfold Card.withChild
    cases intrinsic <;> simp [SortedSet.contains_insert, hmem]
  have howned := hlinked.modify new (·.withOwner (some owner)) fun _ _ hmem => hmem
  exact howned.sameView (sameView_emit _ _ _)

/-- A child that is marked does not go without force. -/
theorem Forest.Marks.remove? (h : forest.Marks parent child) {owner old : Handle}
    (hremoved : forest.remove? owner old false = some after) : after.Marks parent child := by
  obtain ⟨card, hcard, -, hforce, rfl⟩ := remove?_eq_some hremoved
  have hunlinked := h.modify owner (·.withoutChild old) fun found hfound hmem => by
    have hne : child ≠ old := by
      rintro rfl
      obtain rfl : card = found := Option.some.inj (hcard.symm.trans hfound)
      exact absurd (hforce hmem) (by simp)
    simp [Card.withoutChild, SortedSet.contains_erase, hne, hmem]
  have hreleased := hunlinked.modify old (·.withOwner none) fun _ _ hmem => hmem
  exact hreleased.sameView (sameView_emit _ _ _)

end

namespace Engine

/-! ## The skeleton -/

variable {stage : Stage} {engine after : Engine}

/-- Where nothing is asked for, no card is removed by force, so no mark goes. -/
theorem Change.marks (hchange : Change (fun _ => False) engine after) {parent child : Handle}
    (h : engine.forest.Marks parent child) : after.forest.Marks parent child := by
  cases hchange with
  | addCard asked | setFactory asked | register asked | unregister asked | subscribe asked
  | unsubscribe asked | tickAll asked => exact asked.elim
  | registerRule asked => simp at asked
  | @makeCard _ _ card =>
    have hinserted : (engine.forest.insert card).Marks parent child := h.insert card
    apply Forest.Marks.sameView hinserted
    exact sameView_register Card.intrinsic (fun _ _ => rfl)
      { engine with forest := engine.forest.insert card } engine.forest.next
  | attach attached =>
    rw [forest_deliver]
    exact (h.attach attached).sameView (Forest.sameView_emptied _)
  | @remove _ _ force _ asked removed =>
    cases force with
    | true => simp at asked
    | false =>
      rw [forest_deliver]
      exact (h.remove? removed).sameView (Forest.sameView_emptied _)
  | raise =>
    rw [forest_deliver]
    exact h.sameView (Forest.sameView_emit _ _ _)
  | deliver =>
    rw [forest_deliver]
    exact h
  | @edit handle _ edits =>
    refine h.modify handle _ fun card _ hmem => ?_
    obtain ⟨_, _, heq⟩ := edits card
    rw [heq]
    exact hmem
  | keepError => exact h
  | note => exact h

/-- What rules without callbacks leave alone: the id of every card, its key, or that it has none,
and all that is built in. -/
structure KeepsSkeleton (engine after : Engine) : Prop where
  id : ∀ handle card, engine.forest.get? handle = some card →
    ∃ later, after.forest.get? handle = some later ∧ later.id = card.id
  key : ∀ handle, engine.forest.contains handle = true →
    after.registry.keyOf? handle = engine.registry.keyOf? handle
  builtIn : ∀ parent child, engine.forest.BuiltIn parent child →
    after.forest.BuiltIn parent child

theorem KeepsSkeleton.refl (engine : Engine) : KeepsSkeleton engine engine :=
  ⟨fun _ card hcard => ⟨card, hcard, rfl⟩, fun _ _ => rfl, fun _ _ h => h⟩

theorem KeepsSkeleton.trans {last : Engine} (hfirst : KeepsSkeleton engine after)
    (hsecond : KeepsSkeleton after last) : KeepsSkeleton engine last := by
  refine ⟨fun handle card hcard => ?_, fun handle hknown => ?_, fun parent child h => ?_⟩
  · obtain ⟨later, hlater, hid⟩ := hfirst.id handle card hcard
    obtain ⟨final, hfinal, hid'⟩ := hsecond.id handle later hlater
    exact ⟨final, hfinal, hid'.trans hid⟩
  · obtain ⟨card, hcard⟩ := Forest.contains_iff.1 hknown
    obtain ⟨later, hlater, -⟩ := hfirst.id handle card hcard
    exact (hsecond.key handle (Forest.contains_iff.2 ⟨later, hlater⟩)).trans
      (hfirst.key handle hknown)
  · exact hsecond.builtIn parent child (hfirst.builtIn parent child h)

/-- What changes keep of the skeleton where nothing is asked for. -/
theorem Change.keepsSkeleton (h : Change (fun _ => False) engine after)
    (hafter : after.forest.Sound) : KeepsSkeleton engine after := by
  refine ⟨fun handle card hcard => ?_, fun handle hknown => ?_, fun parent child hbuilt => ?_⟩
  · rcases h.registration with hsame | ⟨made, -, rfl⟩ | ⟨_, hasked, -⟩ | ⟨_, hasked, -⟩
    · obtain ⟨later, hlater, hentry⟩ := hsame.forest.exists_get? hcard
      exact ⟨later, hlater, congrArg Prod.fst hentry⟩
    · have hne := Forest.ne_next_of_contains (Forest.contains_iff.2 ⟨card, hcard⟩)
      exact ⟨card, (addCard_of_ne engine made hne).1.trans hcard, rfl⟩
    · exact hasked.elim
    · exact hasked.elim
  · rcases h.registration with hsame | ⟨made, -, rfl⟩ | ⟨_, hasked, -⟩ | ⟨_, hasked, -⟩
    · rw [hsame.registry]
    · exact (addCard_of_ne engine made (Forest.ne_next_of_contains hknown)).2
    · exact hasked.elim
    · exact hasked.elim
  · exact (h.marks hbuilt.marked).builtIn hafter

theorem Course.keepsSkeleton (h : Course (fun _ => False) stage engine after)
    (hlinked : engine.SoundlyLinked) : KeepsSkeleton engine after := by
  -- Soundness is kept along, for only there a mark says that a card is a child.
  have hsame : ∀ {here later}, SameCards here later →
      here.SoundlyLinked ∧ KeepsSkeleton engine here →
        later.SoundlyLinked ∧ KeepsSkeleton engine later := by
    intro here later hsame h
    refine ⟨h.1.ofSame hsame, ?_, ?_, ?_⟩
    · rw [hsame.forest]
      exact h.2.id
    · rw [hsame.registry]
      exact h.2.key
    · rw [hsame.forest]
      exact h.2.builtIn
  have hchange : ∀ {here later}, Change (fun _ => False) here later →
      here.SoundlyLinked ∧ KeepsSkeleton engine here →
        later.SoundlyLinked ∧ KeepsSkeleton engine later := by
    intro here later hchange h
    have hlater := h.1.change (hchange.mono fun _ => False.elim)
    exact ⟨hlater, h.2.trans (hchange.keepsSkeleton hlater.sound)⟩
  have hstays : Stays (fun _ => False) fun later =>
      later.SoundlyLinked ∧ KeepsSkeleton engine later :=
    fun hstep => hstep.keepsCards hsame hchange
  exact (h.keeps hstays ⟨hlinked, .refl engine⟩).2

end Engine

end CardRules
