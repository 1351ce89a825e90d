import CardRules.Handle
import CardRules.Sorted.Map

/-!
The registry of cards. It is kept twice, by key and by handle: for every id the cards in ascending
order of their numbers, and for every registered card its key.
-/

namespace CardRules

/-- The registered cards, by id and number, and their keys, by handle. -/
structure Registry where
  byId : SortedMap String (SortedMap Nat Handle) := ∅
  keys : SortedMap Handle Key := ∅
deriving DecidableEq

namespace Registry

instance : EmptyCollection Registry := ⟨{}⟩

/-- The cards of an id by number. -/
def ofId (registry : Registry) (id : String) : SortedMap Nat Handle :=
  (registry.byId.find? id).getD ∅

/-- The number of registered cards. -/
def size (registry : Registry) : Nat := registry.keys.size

/-- Whether a card is registered. -/
def contains (registry : Registry) (handle : Handle) : Bool := registry.keys.contains handle

/-- The key of a registered card. -/
def keyOf? (registry : Registry) (handle : Handle) : Option Key := registry.keys.find? handle

/-- The card under a key. -/
def find? (registry : Registry) (key : Key) : Option Handle :=
  (registry.ofId key.id).find? key.index

/-- Whether no card stands under a key. -/
def isFree (registry : Registry) (key : Key) : Bool := (registry.find? key).isNone

/-- The first number from a start that an ascending list lacks. -/
def firstGap (start : Nat) : List Nat → Nat
  | [] => start
  | used :: rest => if used = start then firstGap (start + 1) rest else start

/-- The smallest number not in use for an id. -/
def smallestFree (registry : Registry) (id : String) : Nat :=
  firstGap 0 (registry.ofId id).keys

/-- Registers a card under a key. Neither of them may be taken. -/
def insert (registry : Registry) (key : Key) (handle : Handle) : Registry where
  byId := registry.byId.insert key.id ((registry.ofId key.id).insert key.index handle)
  keys := registry.keys.insert handle key

/-- Registers a card under a key, unless the card or the key is taken. -/
def insert? (registry : Registry) (key : Key) (handle : Handle) : Option Registry :=
  if registry.contains handle || !registry.isFree key then none
  else some (registry.insert key handle)

/-- Takes a card out of the registry. An id without cards leaves no trace. -/
def erase (registry : Registry) (handle : Handle) : Registry :=
  match registry.keyOf? handle with
  | none => registry
  | some key =>
    -- An id is listed only while it has cards.
    let rest := (registry.ofId key.id).erase key.index
    { byId := if rest.isEmpty then registry.byId.erase key.id else registry.byId.insert key.id rest
      keys := registry.keys.erase handle }

/-- The cards of an id, by ascending number. -/
def allOf (registry : Registry) (id : String) : List Handle := (registry.ofId id).values

/-- The card of an id with the smallest number. -/
def firstOf? (registry : Registry) (id : String) : Option Handle := (registry.allOf id).head?

/-- All registered cards, by ascending handle. -/
def handles (registry : Registry) : List Handle := registry.keys.keys

/-! ## Look-ups -/

@[simp] theorem keyOf?_empty (handle : Handle) : (∅ : Registry).keyOf? handle = none := rfl

@[simp] theorem find?_empty (key : Key) : (∅ : Registry).find? key = none := rfl

theorem keyOf?_insert (registry : Registry) (key : Key) (handle wanted : Handle) :
    (registry.insert key handle).keyOf? wanted =
      if wanted = handle then some key else registry.keyOf? wanted :=
  SortedMap.find?_insert ..

theorem ofId_insert (registry : Registry) (key : Key) (handle : Handle) (id : String) :
    (registry.insert key handle).ofId id =
      if id = key.id then (registry.ofId id).insert key.index handle else registry.ofId id := by
  by_cases h : id = key.id
  · subst h
    simp [ofId, insert, SortedMap.find?_insert]
  · simp [ofId, insert, SortedMap.find?_insert, h]

theorem find?_insert (registry : Registry) (key : Key) (handle : Handle) (wanted : Key) :
    (registry.insert key handle).find? wanted =
      if wanted = key then some handle else registry.find? wanted := by
  cases key with | mk id index
  cases wanted with | mk wantedId wantedIndex
  by_cases h : wantedId = id
  · subst h
    simp [find?, ofId_insert, SortedMap.find?_insert]
  · simp [find?, ofId_insert, h]

theorem keyOf?_erase (registry : Registry) (handle wanted : Handle) :
    (registry.erase handle).keyOf? wanted =
      if wanted = handle then none else registry.keyOf? wanted := by
  unfold erase
  split
  next h =>
    by_cases hw : wanted = handle
    · simp [hw, h]
    · simp [hw]
  next => exact SortedMap.find?_erase ..

end Registry

end CardRules
