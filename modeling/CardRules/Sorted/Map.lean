/-!
Finite maps kept as association lists in ascending key order.

The order is part of the type, so the list of entries is a canonical form: two maps that answer
every look-up alike are equal (`SortedMap.ext_find?`). Look-ups after an insertion or a removal
are given by one equation each.
-/

namespace CardRules

universe u v

/-- A map whose entries stand in strictly ascending order of their keys. -/
structure SortedMap (α : Type u) (β : Type v) [Ord α] where
  entries : List (α × β)
  ascending : entries.Pairwise fun a b => compare a.1 b.1 = .lt
deriving DecidableEq

namespace SortedMap

variable {α : Type u} {β : Type v} [Ord α]

/-! ## Entry lists -/

/-- The value that stands under a key. -/
def lookIn (key : α) : List (α × β) → Option β
  | [] => none
  | (other, value) :: rest => if compare key other = .eq then some value else lookIn key rest

/-- Puts a value under a key at the key's place, instead of the value that stood there. -/
def putIn (key : α) (value : β) : List (α × β) → List (α × β)
  | [] => [(key, value)]
  | (other, old) :: rest =>
    match compare key other with
    | .lt => (key, value) :: (other, old) :: rest
    | .eq => (key, value) :: rest
    | .gt => (other, old) :: putIn key value rest

/-- Leaves out the entry of a key. -/
def dropFrom (key : α) (entries : List (α × β)) : List (α × β) :=
  entries.filter fun entry => compare key entry.1 != .eq

theorem mem_putIn {key : α} {value : β} {entry : α × β} {entries : List (α × β)}
    (h : entry ∈ putIn key value entries) : entry = (key, value) ∨ entry ∈ entries := by
  induction entries with
  | nil => simpa [putIn] using h
  | cons head rest ih =>
    obtain ⟨other, old⟩ := head
    unfold putIn at h
    split at h
    · simpa using h
    · rcases List.mem_cons.1 h with rfl | h
      · exact .inl rfl
      · exact .inr (List.mem_cons_of_mem _ h)
    · rcases List.mem_cons.1 h with rfl | h
      · exact .inr List.mem_cons_self
      · exact (ih h).imp_right (List.mem_cons_of_mem _)

theorem ascending_putIn [Std.TransOrd α] [Std.LawfulEqOrd α] (key : α) (value : β)
    {entries : List (α × β)} (h : entries.Pairwise fun a b => compare a.1 b.1 = .lt) :
    (putIn key value entries).Pairwise fun a b => compare a.1 b.1 = .lt := by
  induction entries with
  | nil => simp [putIn]
  | cons head rest ih =>
    obtain ⟨other, old⟩ := head
    obtain ⟨hfirst, hrest⟩ := List.pairwise_cons.1 h
    unfold putIn
    split
    next hlt =>
      refine List.pairwise_cons.2 ⟨fun entry hmem => ?_, h⟩
      rcases List.mem_cons.1 hmem with rfl | hmem
      · exact hlt
      · exact Std.TransCmp.lt_trans hlt (hfirst entry hmem)
    next heq =>
      have hkey : key = other := Std.LawfulEqOrd.eq_of_compare heq
      exact List.pairwise_cons.2 ⟨fun entry hmem => by rw [hkey]; exact hfirst entry hmem, hrest⟩
    next hgt =>
      refine List.pairwise_cons.2 ⟨fun entry hmem => ?_, ih hrest⟩
      rcases mem_putIn hmem with rfl | hmem
      · exact Std.OrientedCmp.lt_of_gt hgt
      · exact hfirst entry hmem

theorem lookIn_eq_some_iff [Std.TransOrd α] [Std.LawfulEqOrd α] {key : α} {value : β}
    {entries : List (α × β)} (h : entries.Pairwise fun a b => compare a.1 b.1 = .lt) :
    lookIn key entries = some value ↔ (key, value) ∈ entries := by
  induction entries with
  | nil => simp [lookIn]
  | cons head rest ih =>
    obtain ⟨other, old⟩ := head
    obtain ⟨hfirst, hrest⟩ := List.pairwise_cons.1 h
    unfold lookIn
    split
    next heq =>
      have hkey : key = other := Std.LawfulEqOrd.eq_of_compare heq
      subst hkey
      constructor
      · rintro h
        obtain rfl := Option.some.inj h
        exact List.mem_cons_self
      · intro hmem
        rcases List.mem_cons.1 hmem with hpair | hmem
        · rw [(Prod.mk.inj hpair).2]
        · exact absurd (hfirst _ hmem) (by simp [Std.ReflCmp.compare_self])
    next hne =>
      rw [ih hrest]
      constructor
      · exact List.mem_cons_of_mem _
      · intro hmem
        rcases List.mem_cons.1 hmem with hpair | hmem
        · exact absurd (by rw [(Prod.mk.inj hpair).1]; exact Std.ReflCmp.compare_self) hne
        · exact hmem

theorem lookIn_putIn [Std.TransOrd α] [Std.LawfulEqOrd α] (key : α) (value : β) (wanted : α)
    (entries : List (α × β)) :
    lookIn wanted (putIn key value entries) =
      if compare wanted key = .eq then some value else lookIn wanted entries := by
  induction entries with
  | nil => rfl
  | cons head rest ih =>
    obtain ⟨other, old⟩ := head
    unfold putIn
    split
    next => rfl
    next heq =>
      obtain rfl : key = other := Std.LawfulEqOrd.eq_of_compare heq
      by_cases hw : compare wanted key = .eq <;> simp [lookIn, hw]
    next hgt =>
      by_cases hw : compare wanted key = .eq
      · obtain rfl : wanted = key := Std.LawfulEqOrd.eq_of_compare hw
        simp [lookIn, hgt, ih]
      · simp [lookIn, ih, hw]

theorem lookIn_dropFrom [Std.TransOrd α] [Std.LawfulEqOrd α] (key wanted : α)
    (entries : List (α × β)) :
    lookIn wanted (dropFrom key entries) =
      if compare wanted key = .eq then none else lookIn wanted entries := by
  induction entries with
  | nil => simp [dropFrom, lookIn]
  | cons head rest ih =>
    obtain ⟨other, old⟩ := head
    unfold dropFrom at ih ⊢
    by_cases hk : compare key other = .eq
    · obtain rfl : key = other := Std.LawfulEqOrd.eq_of_compare hk
      by_cases hw : compare wanted key = .eq <;> simp [ih, lookIn, hw]
    · rw [List.filter_cons_of_pos (by simpa using hk)]
      by_cases hw : compare wanted key = .eq
      · obtain rfl : wanted = key := Std.LawfulEqOrd.eq_of_compare hw
        simp [lookIn, hk, ih]
      · simp [lookIn, ih, hw]

theorem entries_eq_of_mem_iff [Std.TransOrd α] {left right : List (α × β)}
    (hl : left.Pairwise fun a b => compare a.1 b.1 = .lt)
    (hr : right.Pairwise fun a b => compare a.1 b.1 = .lt)
    (h : ∀ entry, entry ∈ left ↔ entry ∈ right) : left = right := by
  induction left generalizing right with
  | nil =>
    cases right with
    | nil => rfl
    | cons head rest => exact absurd ((h head).2 List.mem_cons_self) List.not_mem_nil
  | cons head rest ih =>
    cases right with
    | nil => exact absurd ((h head).1 List.mem_cons_self) List.not_mem_nil
    | cons head' rest' =>
      obtain ⟨hfirst, hrest⟩ := List.pairwise_cons.1 hl
      obtain ⟨hfirst', hrest'⟩ := List.pairwise_cons.1 hr
      have irrefl : ∀ entry : α × β, compare entry.1 entry.1 ≠ .lt := fun entry => by
        simp [Std.ReflCmp.compare_self]
      have hhead : head = head' := by
        rcases List.mem_cons.1 ((h head).1 List.mem_cons_self) with heq | hmem
        · exact heq
        · rcases List.mem_cons.1 ((h head').2 List.mem_cons_self) with heq | hmem'
          · exact heq.symm
          · exact absurd (Std.TransCmp.lt_trans (hfirst _ hmem') (hfirst' _ hmem)) (irrefl head)
      subst hhead
      congr 1
      refine ih hrest hrest' fun entry => ⟨fun hmem => ?_, fun hmem => ?_⟩
      · rcases List.mem_cons.1 ((h entry).1 (List.mem_cons_of_mem _ hmem)) with rfl | hmem'
        · exact absurd (hfirst _ hmem) (irrefl entry)
        · exact hmem'
      · rcases List.mem_cons.1 ((h entry).2 (List.mem_cons_of_mem _ hmem)) with rfl | hmem'
        · exact absurd (hfirst' _ hmem) (irrefl entry)
        · exact hmem'

/-! ## Maps -/

/-- The map without entries. -/
def empty : SortedMap α β := ⟨[], .nil⟩

instance : EmptyCollection (SortedMap α β) := ⟨empty⟩
instance : Inhabited (SortedMap α β) := ⟨empty⟩

/-- The value under a key. -/
def find? (map : SortedMap α β) (key : α) : Option β := lookIn key map.entries

/-- Whether a key has a value. -/
def contains (map : SortedMap α β) (key : α) : Bool := (map.find? key).isSome

/-- The keys in ascending order. -/
def keys (map : SortedMap α β) : List α := map.entries.map (·.1)

/-- The values in ascending order of their keys. -/
def values (map : SortedMap α β) : List β := map.entries.map (·.2)

/-- The number of entries. -/
def size (map : SortedMap α β) : Nat := map.entries.length

/-- Whether there is no entry. -/
def isEmpty (map : SortedMap α β) : Bool := map.entries.isEmpty

/-- The map with a value under a key, in place of the value it had. -/
def insert [Std.TransOrd α] [Std.LawfulEqOrd α] (map : SortedMap α β) (key : α) (value : β) :
    SortedMap α β :=
  ⟨putIn key value map.entries, ascending_putIn key value map.ascending⟩

/-- The map without the entry of a key. -/
def erase (map : SortedMap α β) (key : α) : SortedMap α β :=
  ⟨dropFrom key map.entries, map.ascending.filter _⟩

@[simp] theorem find?_empty (key : α) : (∅ : SortedMap α β).find? key = none := rfl

theorem find?_insert [Std.TransOrd α] [Std.LawfulEqOrd α] [DecidableEq α] (map : SortedMap α β)
    (key : α) (value : β) (wanted : α) :
    (map.insert key value).find? wanted = if wanted = key then some value else map.find? wanted := by
  simp [find?, insert, lookIn_putIn]

theorem find?_erase [Std.TransOrd α] [Std.LawfulEqOrd α] [DecidableEq α] (map : SortedMap α β)
    (key wanted : α) :
    (map.erase key).find? wanted = if wanted = key then none else map.find? wanted := by
  simp [find?, erase, lookIn_dropFrom]

theorem find?_eq_some_iff [Std.TransOrd α] [Std.LawfulEqOrd α] (map : SortedMap α β) {key : α}
    {value : β} : map.find? key = some value ↔ (key, value) ∈ map.entries :=
  lookIn_eq_some_iff map.ascending

theorem ext_find? [Std.TransOrd α] [Std.LawfulEqOrd α] {left right : SortedMap α β}
    (h : ∀ key, left.find? key = right.find? key) : left = right := by
  have hentries : left.entries = right.entries :=
    entries_eq_of_mem_iff left.ascending right.ascending fun entry => by
      rw [← find?_eq_some_iff left, ← find?_eq_some_iff right, h]
  cases left
  cases right
  simpa using hentries

end SortedMap

end CardRules
