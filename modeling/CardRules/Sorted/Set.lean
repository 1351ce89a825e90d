import CardRules.Sorted.Map

/-!
Finite sets that list their members in ascending order. A set is a map of keys without values, so
two sets with the same members are equal (`SortedSet.ext_contains`).
-/

namespace CardRules

universe u

/-- A set whose members are listed in strictly ascending order. -/
structure SortedSet (α : Type u) [Ord α] where
  map : SortedMap α Unit
deriving DecidableEq

namespace SortedSet

variable {α : Type u} [Ord α]

/-- The set without members. -/
def empty : SortedSet α := ⟨∅⟩

instance : EmptyCollection (SortedSet α) := ⟨empty⟩
instance : Inhabited (SortedSet α) := ⟨empty⟩

/-- The members in ascending order. -/
def toList (set : SortedSet α) : List α := set.map.keys

/-- Whether a value is a member. -/
def contains (set : SortedSet α) (value : α) : Bool := set.map.contains value

/-- The set with one more member. -/
def insert [Std.TransOrd α] [Std.LawfulEqOrd α] (set : SortedSet α) (value : α) : SortedSet α :=
  ⟨set.map.insert value ()⟩

/-- The set without a member. -/
def erase (set : SortedSet α) (value : α) : SortedSet α := ⟨set.map.erase value⟩

/-- The set of the values of a list. -/
def ofList [Std.TransOrd α] [Std.LawfulEqOrd α] (values : List α) : SortedSet α :=
  values.foldl insert ∅

@[simp] theorem contains_empty (value : α) : (∅ : SortedSet α).contains value = false := rfl

theorem contains_insert [Std.TransOrd α] [Std.LawfulEqOrd α] [DecidableEq α] (set : SortedSet α)
    (value wanted : α) :
    (set.insert value).contains wanted = (decide (wanted = value) || set.contains wanted) := by
  by_cases h : wanted = value <;>
    simp [contains, insert, SortedMap.contains, SortedMap.find?_insert, h]

theorem contains_erase [Std.TransOrd α] [Std.LawfulEqOrd α] [DecidableEq α] (set : SortedSet α)
    (value wanted : α) :
    (set.erase value).contains wanted = (!decide (wanted = value) && set.contains wanted) := by
  by_cases h : wanted = value <;>
    simp [contains, erase, SortedMap.contains, SortedMap.find?_erase, h]

theorem contains_foldl_insert [Std.TransOrd α] [Std.LawfulEqOrd α] [DecidableEq α] (values : List α)
    (set : SortedSet α) (wanted : α) :
    (values.foldl insert set).contains wanted =
      (decide (wanted ∈ values) || set.contains wanted) := by
  induction values generalizing set with
  | nil => simp
  | cons value rest ih =>
    rw [List.foldl_cons, ih, contains_insert]
    by_cases h : wanted = value <;> simp [h]

/-- The members of the set of a list are those of the list. -/
theorem contains_ofList [Std.TransOrd α] [Std.LawfulEqOrd α] [DecidableEq α] (values : List α)
    (wanted : α) : (ofList values).contains wanted = decide (wanted ∈ values) := by
  unfold ofList
  rw [contains_foldl_insert, contains_empty, Bool.or_false]

theorem ext_contains [Std.TransOrd α] [Std.LawfulEqOrd α] {left right : SortedSet α}
    (h : ∀ value, left.contains value = right.contains value) : left = right := by
  have hmap : left.map = right.map := SortedMap.ext_find? fun key => by
    have hkey := h key
    simp only [contains, SortedMap.contains] at hkey
    cases hl : left.map.find? key <;> cases hr : right.map.find? key <;> simp_all
  cases left
  cases right
  simpa using hmap

section

variable [Std.TransOrd α] [Std.LawfulEqOrd α] [DecidableEq α] {set : SortedSet α} {value : α}

theorem erase_of_not_contains (h : set.contains value = false) : set.erase value = set := by
  refine ext_contains fun wanted => ?_
  by_cases heq : wanted = value <;> simp [contains_erase, heq, h]

theorem erase_insert (h : set.contains value = false) : (set.insert value).erase value = set := by
  refine ext_contains fun wanted => ?_
  by_cases heq : wanted = value <;> simp [contains_erase, contains_insert, heq, h]

theorem insert_erase (h : set.contains value = true) : (set.erase value).insert value = set := by
  refine ext_contains fun wanted => ?_
  by_cases heq : wanted = value <;> simp [contains_erase, contains_insert, heq, h]

end

end SortedSet

end CardRules
