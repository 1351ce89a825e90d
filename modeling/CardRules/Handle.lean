/-!
Names for cards and listeners. A handle is a place in the forest and never changes; a key is what a
registered card is looked up by.
-/

namespace CardRules

/-- The place of a card in its forest. Cards are numbered from zero in the order they come in. -/
structure Handle where
  index : Nat
deriving DecidableEq

/-- Handles are ordered by age, the oldest first. -/
instance : Ord Handle := ⟨compareOn Handle.index⟩

instance : Std.TransOrd Handle := inferInstanceAs (Std.TransCmp (compareOn Handle.index))

instance : Std.LawfulEqOrd Handle where
  compare_self := Nat.compare_eq_eq.2 rfl
  eq_of_compare {a b} h := by
    cases a
    cases b
    exact congrArg Handle.mk (Nat.compare_eq_eq.1 h)

/-- The text of a handle in error messages. -/
def Handle.text (handle : Handle) : String :=
  "CardHandle(" ++ toString handle.index ++ ")"

/-- What a registered card is known by: its id and its number among the cards of that id. -/
structure Key where
  id : String
  index : Nat
deriving DecidableEq

/-- Keys are ordered by id, and by number where the ids agree. -/
instance : Ord Key := ⟨compareLex (compareOn Key.id) (compareOn Key.index)⟩

instance : Std.TransOrd Key :=
  inferInstanceAs (Std.TransCmp (compareLex (compareOn Key.id) (compareOn Key.index)))

theorem Key.compare_eq_eq_iff {a b : Key} : compare a b = .eq ↔ a = b := by
  change (compare a.id b.id).then (compare a.index b.index) = .eq ↔ a = b
  cases a
  cases b
  simp [Ordering.then_eq_eq]

instance : Std.LawfulEqOrd Key where
  compare_self := Key.compare_eq_eq_iff.2 rfl
  eq_of_compare := Key.compare_eq_eq_iff.1

/-- The text of a key: the id and the number, joined by a hash sign. -/
def Key.text (key : Key) : String :=
  key.id ++ "#" ++ toString key.index

/-- What an external listener is known by, which has 32 bits. -/
structure ListenerId where
  bits : BitVec 32
deriving DecidableEq

/-- The number of an external listener. Numbers are given out in the order of subscription. -/
def ListenerId.number (id : ListenerId) : Nat := id.bits.toNat

end CardRules
