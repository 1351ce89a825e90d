import CardRules.Card

/-!
The forest: the store of all cards, and the outbox of the events that its changes raised. A card
stays in the forest for good; what changes are its links.

Every later statement about the store goes through the look-up `get?`, which has one equation for
each operation.
-/

namespace CardRules

/-- All cards, each at the place its handle names, and the events not yet handed out. -/
structure Forest where
  cards : Array Card := #[]
  outbox : List Raised := []

namespace Forest

instance : EmptyCollection Forest := ⟨{}⟩

/-- The number of cards. -/
def size (forest : Forest) : Nat := forest.cards.size

/-- The handles of all cards, in order of age. -/
def handles (forest : Forest) : List Handle := (List.range forest.size).map Handle.mk

/-- Whether a handle names a card. -/
def contains (forest : Forest) (handle : Handle) : Bool := handle.index < forest.size

/-- The card of a handle. -/
def get? (forest : Forest) (handle : Handle) : Option Card := forest.cards[handle.index]?

/-- The owner of a card that has one. -/
def owner? (forest : Forest) (handle : Handle) : Option Handle :=
  (forest.get? handle).bind (·.owner)

/-- The children of a card, in order. -/
def children (forest : Forest) (handle : Handle) : List Handle :=
  ((forest.get? handle).map (·.children)).getD []

/-- The handle of the next card to come. -/
def next (forest : Forest) : Handle := ⟨forest.size⟩

/-- The forest with a new card, at the handle `next`. -/
def insert (forest : Forest) (card : Card) : Forest :=
  { forest with cards := forest.cards.push card }

/-- Changes the card of a handle, if there is one. -/
def modify (forest : Forest) (handle : Handle) (change : Card → Card) : Forest :=
  { forest with cards := forest.cards.modify handle.index change }

/-- Puts an event of a card into the outbox, unless nobody listens to that card. -/
def emit (forest : Forest) (source : Handle) (event : Event) : Forest :=
  match forest.get? source with
  | some card =>
    if card.listeners.isEmpty then forest
    else { forest with outbox := forest.outbox ++ [⟨source, event⟩] }
  | none => forest

/-- The forest after its outbox was emptied. -/
def emptied (forest : Forest) : Forest := { forest with outbox := [] }

/-! ## Look-ups -/

theorem contains_iff {forest : Forest} {handle : Handle} :
    forest.contains handle = true ↔ ∃ card, forest.get? handle = some card := by
  rw [contains, get?, ← Option.isSome_iff_exists, decide_eq_true_iff, size]
  simp

/-- Forests with the same cards and the same outbox are the same. -/
theorem ext_get? {forest after : Forest}
    (hcards : ∀ handle, after.get? handle = forest.get? handle)
    (houtbox : after.outbox = forest.outbox) : after = forest := by
  have harrays : after.cards = forest.cards := Array.ext_getElem? fun index => hcards ⟨index⟩
  cases forest
  cases after
  cases harrays
  cases houtbox
  rfl

@[simp] theorem get?_empty (handle : Handle) : (∅ : Forest).get? handle = none := by
  simp [get?, EmptyCollection.emptyCollection]

theorem get?_insert (forest : Forest) (card : Card) (handle : Handle) :
    (forest.insert card).get? handle =
      if handle = forest.next then some card else forest.get? handle := by
  cases handle
  simp [get?, insert, next, size, Array.getElem?_push]

theorem get?_modify (forest : Forest) (changed : Handle) (change : Card → Card) (handle : Handle) :
    (forest.modify changed change).get? handle =
      if handle = changed then (forest.get? handle).map change else forest.get? handle := by
  cases handle
  cases changed
  simp only [get?, modify, Array.getElem?_modify, Handle.mk.injEq, eq_comm]

@[simp] theorem get?_emit (forest : Forest) (source : Handle) (event : Event) (handle : Handle) :
    (forest.emit source event).get? handle = forest.get? handle := by
  unfold emit
  split
  · split <;> rfl
  · rfl

@[simp] theorem get?_emptied (forest : Forest) (handle : Handle) :
    forest.emptied.get? handle = forest.get? handle := rfl

@[simp] theorem size_insert (forest : Forest) (card : Card) :
    (forest.insert card).size = forest.size + 1 := by
  simp [size, insert]

@[simp] theorem size_modify (forest : Forest) (changed : Handle) (change : Card → Card) :
    (forest.modify changed change).size = forest.size := by
  simp [size, modify]

@[simp] theorem size_emit (forest : Forest) (source : Handle) (event : Event) :
    (forest.emit source event).size = forest.size := by
  unfold emit
  split
  · split <;> rfl
  · rfl

end Forest

end CardRules
