import CardRules.Proofs.Numbers
import Mathlib.Data.List.Induction
import Mathlib.Data.List.Perm.Subperm

/-!
Filing. A registry is used by calls that register a card under a key and calls that take a card out.
Whatever the calls are, a card has at most one key and a key at most one card, and each table can be
read off the other. The lists that are read from a registry follow from its look-ups.
-/

namespace CardRules

theorem SortedMap.isEmpty_insert {β : Type} (map : SortedMap Nat β) (number : Nat) (value : β) :
    (map.insert number value).isEmpty = false := by
  by_contra h
  rw [Bool.not_eq_false] at h
  have hfind := map.find?_insert number value number
  rw [eq_empty_of_isEmpty h, find?_empty, if_pos rfl] at hfind
  cases hfind

/-- The first value of a map is the one under the smallest number. -/
theorem SortedMap.head?_values_eq_some_iff {β : Type} (map : SortedMap Nat β) {value : β} :
    map.values.head? = some value ↔
      ∃ number, map.find? number = some value ∧ ∀ smaller < number, map.find? smaller = none := by
  obtain ⟨entries, hascending⟩ := map
  have hfind (number : Nat) (value : β) :
      find? ⟨entries, hascending⟩ number = some value ↔ (number, value) ∈ entries :=
    find?_eq_some_iff _
  cases entries with
  | nil =>
    constructor
    · exact nofun
    · rintro ⟨number, hnumber, -⟩
      cases hnumber
  | cons first rest =>
    obtain ⟨hfirst, -⟩ := List.pairwise_cons.1 hascending
    constructor
    · intro h
      obtain rfl : first.2 = value := Option.some.inj h
      refine ⟨first.1, (hfind _ _).2 List.mem_cons_self, fun smaller hless => ?_⟩
      -- All other numbers are larger.
      rw [Option.eq_none_iff_forall_not_mem]
      intro other hother
      rcases List.mem_cons.1 ((hfind _ _).1 hother) with hsame | hrest
      · rw [← hsame] at hless
        exact Nat.lt_irrefl _ hless
      · exact Nat.lt_asymm hless (Nat.compare_eq_lt.1 (hfirst _ hrest))
    · rintro ⟨number, hnumber, hsmallest⟩
      rcases List.mem_cons.1 ((hfind _ _).1 hnumber) with hsame | hrest
      · exact congrArg (fun entry => some entry.2) hsame.symm
      · have hnone := hsmallest first.1 (Nat.compare_eq_lt.1 (hfirst _ hrest))
        rw [(hfind first.1 first.2).2 List.mem_cons_self] at hnone
        cases hnone

namespace Registry

/-- A call on a registry. -/
inductive Call where
  /-- Registers a card under a key. -/
  | insert (key : Key) (handle : Handle)
  /-- Takes a card out. -/
  | remove (handle : Handle)
deriving DecidableEq

/-- What a call answers. -/
inductive Answer where
  /-- Whether the card was registered. -/
  | accepted (registered : Bool)
  /-- The key the card had. -/
  | released (key : Option Key)
deriving DecidableEq

/-- One call. What is refused leaves the registry as it is. -/
def serve (registry : Registry) : Call → Registry × Answer
  | .insert key handle =>
    match registry.insert? key handle with
    | some after => (after, .accepted true)
    | none => (registry, .accepted false)
  | .remove handle => (registry.erase handle, .released (registry.keyOf? handle))

/-- The registry after calls, from the empty one. -/
def served (calls : List Call) : Registry :=
  calls.foldl (fun registry call => (registry.serve call).1) ∅

theorem served_concat (calls : List Call) (call : Call) :
    served (calls ++ [call]) = ((served calls).serve call).1 := by
  unfold served
  rw [List.foldl_append]
  rfl

variable {registry : Registry} {key : Key} {handle : Handle} {id : String} {calls : List Call}

/-! ## One call -/

/-- The card or the key is taken. -/
def Taken (registry : Registry) (key : Key) (handle : Handle) : Prop :=
  registry.contains handle = true ∨ registry.isFree key = false

theorem not_taken_iff :
    ¬ registry.Taken key handle ↔ registry.keyOf? handle = none ∧ registry.find? key = none := by
  unfold Taken
  rw [not_or, Bool.not_eq_true, contains_eq_false_iff, Bool.not_eq_false, isFree_iff]

theorem serve_insert_of_taken (h : registry.Taken key handle) :
    registry.serve (.insert key handle) = (registry, .accepted false) := by
  have hrefused : registry.insert? key handle = none := by
    unfold insert?
    rw [if_pos]
    rwa [Bool.or_eq_true, Bool.not_eq_true']
  simp only [serve, hrefused]

theorem serve_insert_of_not_taken (h : ¬ registry.Taken key handle) :
    registry.serve (.insert key handle) = (registry.insert key handle, .accepted true) := by
  have haccepted : registry.insert? key handle = some (registry.insert key handle) := by
    unfold insert?
    rw [if_neg]
    rwa [Bool.or_eq_true, Bool.not_eq_true']
  simp only [serve, haccepted]

theorem serve_insert_accepted_iff :
    (registry.serve (.insert key handle)).2 = .accepted true ↔ ¬ registry.Taken key handle := by
  by_cases h : registry.Taken key handle
  · simp [serve_insert_of_taken h, h]
  · simp [serve_insert_of_not_taken h, h]

/-! ## What every call keeps -/

/-- A registry is well kept if its tables are inverse to each other and no id is listed without a
card. -/
structure WellKept (registry : Registry) : Prop where
  consistent : registry.Consistent
  listed : ∀ id numbers, registry.byId.find? id = some numbers → numbers.isEmpty = false

theorem wellKept_empty : (∅ : Registry).WellKept := ⟨consistent_empty, nofun⟩

theorem WellKept.insert (h : registry.WellKept) (hfree : ¬ registry.Taken key handle) :
    (registry.insert key handle).WellKept := by
  obtain ⟨hcard, hkey⟩ := not_taken_iff.1 hfree
  refine ⟨h.consistent.insert hcard hkey, fun id numbers hnumbers => ?_⟩
  rw [Registry.insert, SortedMap.find?_insert] at hnumbers
  split at hnumbers
  · obtain rfl := Option.some.inj hnumbers
    exact SortedMap.isEmpty_insert ..
  · exact h.listed id numbers hnumbers

theorem WellKept.erase (h : registry.WellKept) (handle : Handle) :
    (registry.erase handle).WellKept := by
  refine ⟨h.consistent.erase handle, fun id numbers hnumbers => ?_⟩
  unfold Registry.erase at hnumbers
  split at hnumbers
  · exact h.listed id numbers hnumbers
  next key _ =>
    dsimp only at hnumbers
    split at hnumbers
    · -- The id goes with its last card.
      rw [SortedMap.find?_erase] at hnumbers
      split at hnumbers
      · cases hnumbers
      · exact h.listed id numbers hnumbers
    next hrest =>
      rw [SortedMap.find?_insert] at hnumbers
      split at hnumbers
      · obtain rfl := Option.some.inj hnumbers
        exact Bool.eq_false_iff.2 hrest
      · exact h.listed id numbers hnumbers

theorem WellKept.serve (h : registry.WellKept) (call : Call) : (registry.serve call).1.WellKept := by
  cases call with
  | insert key handle =>
    by_cases htaken : registry.Taken key handle
    · rw [serve_insert_of_taken htaken]
      exact h
    · rw [serve_insert_of_not_taken htaken]
      exact h.insert htaken
  | remove handle => exact h.erase handle

theorem wellKept_served (calls : List Call) : (served calls).WellKept := by
  induction calls using List.reverseRecOn with
  | nil => exact wellKept_empty
  | append_singleton calls call ih =>
    rw [served_concat]
    exact ih.serve call

/-! ## The key a card was registered under -/

/-- After a call a card has the key it had, unless the call took the card out, or the key that the
call registered it under. -/
theorem keyOf?_serve_iff {call : Call} :
    (registry.serve call).1.keyOf? handle = some key ↔
      (registry.keyOf? handle = some key ∧ call ≠ .remove handle) ∨
        (call = .insert key handle ∧ ¬ registry.Taken key handle) := by
  cases call with
  | insert newKey newHandle =>
    have hkept : Call.insert newKey newHandle ≠ .remove handle := nofun
    rw [Call.insert.injEq]
    by_cases htaken : registry.Taken newKey newHandle
    · rw [serve_insert_of_taken htaken]
      constructor
      · intro h
        exact .inl ⟨h, hkept⟩
      · rintro (⟨h, -⟩ | ⟨⟨rfl, rfl⟩, hfree⟩)
        · exact h
        · exact absurd htaken hfree
    · rw [serve_insert_of_not_taken htaken, keyOf?_insert]
      by_cases hsame : handle = newHandle
      · -- The card had no key before.
        subst hsame
        rw [if_pos rfl, (not_taken_iff.1 htaken).1, Option.some.injEq]
        constructor
        · rintro rfl
          exact .inr ⟨⟨rfl, rfl⟩, htaken⟩
        · rintro (⟨h, -⟩ | ⟨⟨rfl, -⟩, -⟩)
          · cases h
          · rfl
      · rw [if_neg hsame]
        simp [hkept, Ne.symm hsame]
  | remove removed =>
    show (registry.erase removed).keyOf? handle = some key ↔ _
    rw [keyOf?_erase]
    by_cases hsame : handle = removed
    · simp [hsame]
    · simp [hsame, Ne.symm hsame]

/-- A call registered the card under the key, and none has taken it out since. -/
def Standing (calls : List Call) (key : Key) (handle : Handle) : Prop :=
  ∃ before later, calls = before ++ .insert key handle :: later ∧
    ((served before).serve (.insert key handle)).2 = .accepted true ∧ .remove handle ∉ later

/-- What stands after one more call stood before, and was not taken out, or it was registered now. -/
theorem standing_concat_iff {call : Call} :
    Standing (calls ++ [call]) key handle ↔
      (Standing calls key handle ∧ call ≠ .remove handle) ∨
        (call = .insert key handle ∧ ¬ (served calls).Taken key handle) := by
  constructor
  · rintro ⟨before, later, hcalls, haccepted, hremoved⟩
    rcases List.eq_nil_or_concat later with rfl | ⟨later, last, rfl⟩
    · obtain ⟨rfl, hlast⟩ := List.append_inj' hcalls rfl
      exact .inr ⟨List.singleton_inj.1 hlast, serve_insert_accepted_iff.1 haccepted⟩
    · rw [List.concat_eq_append, ← List.cons_append, ← List.append_assoc] at hcalls
      obtain ⟨hbefore, hlast⟩ := List.append_inj' hcalls rfl
      obtain rfl := List.singleton_inj.1 hlast
      rw [List.concat_eq_append, List.mem_append, not_or, List.mem_singleton] at hremoved
      exact .inl ⟨⟨before, later, hbefore, haccepted, hremoved.1⟩, Ne.symm hremoved.2⟩
  · rintro (⟨⟨before, later, rfl, haccepted, hremoved⟩, hkept⟩ | ⟨rfl, hfree⟩)
    · refine ⟨before, later ++ [call], by simp, haccepted, ?_⟩
      rw [List.mem_append, not_or, List.mem_singleton]
      exact ⟨hremoved, Ne.symm hkept⟩
    · exact ⟨calls, [], rfl, serve_insert_accepted_iff.2 hfree, List.not_mem_nil⟩

/-- The key of a card is the one that it was registered under. -/
theorem keyOf?_served_iff :
    (served calls).keyOf? handle = some key ↔ Standing calls key handle := by
  induction calls using List.reverseRecOn with
  | nil =>
    constructor
    · exact nofun
    · rintro ⟨before, later, hcalls, -⟩
      simp at hcalls
  | append_singleton calls call ih => rw [served_concat, keyOf?_serve_iff, standing_concat_iff, ih]

/-! ## The cards of an id -/

/-- The number that is allocated is at most that of the cards of the id. -/
theorem firstGap_le (start : Nat) (used : List Nat) :
    firstGap start used ≤ start + used.length := by
  induction used generalizing start with
  | nil => exact Nat.le_refl start
  | cons first rest ih =>
    unfold firstGap
    split
    · have hrest := ih (start + 1)
      rw [List.length_cons]
      omega
    · exact Nat.le_add_right ..

/-- The cards of an id are those that stand under its numbers, in the same order. -/
theorem map_find?_keys (registry : Registry) (id : String) :
    (registry.ofId id).keys.map (fun number => registry.find? ⟨id, number⟩) =
      (registry.allOf id).map some := by
  unfold allOf SortedMap.keys SortedMap.values
  rw [List.map_map, List.map_map]
  refine List.map_congr_left fun entry hmem => ?_
  exact (SortedMap.find?_eq_some_iff _).2 hmem

theorem mem_allOf_iff : handle ∈ registry.allOf id ↔
    ∃ number, registry.find? ⟨id, number⟩ = some handle := by
  have hentry (number : Nat) : registry.find? ⟨id, number⟩ = some handle ↔
      (number, handle) ∈ (registry.ofId id).entries := SortedMap.find?_eq_some_iff _
  simp only [hentry]
  unfold allOf SortedMap.values
  rw [List.mem_map]
  constructor
  · rintro ⟨⟨number, _⟩, hmem, rfl⟩
    exact ⟨number, hmem⟩
  · rintro ⟨number, hmem⟩
    exact ⟨(number, handle), hmem, rfl⟩

/-- No card is listed twice for an id, since a card has one key. -/
theorem Consistent.nodup_allOf (h : registry.Consistent) (id : String) :
    (registry.allOf id).Nodup := by
  refine List.pairwise_map.2 ((registry.ofId id).ascending.imp_of_mem ?_)
  intro first second hfirst hsecond hless hsame
  have hkey : registry.keyOf? first.2 = some ⟨id, first.1⟩ :=
    (h _ _).2 ((SortedMap.find?_eq_some_iff _).2 hfirst)
  have hkey' : registry.keyOf? second.2 = some ⟨id, second.1⟩ :=
    (h _ _).2 ((SortedMap.find?_eq_some_iff _).2 hsecond)
  rw [hsame, hkey'] at hkey
  have hnumber : second.1 = first.1 := congrArg Key.index (Option.some.inj hkey)
  rw [hnumber] at hless
  exact absurd (Nat.compare_eq_lt.1 hless) (Nat.lt_irrefl _)

/-- The smallest free number is at most the number of registered cards. -/
theorem Consistent.smallestFree_le (h : registry.Consistent) (id : String) :
    registry.smallestFree id ≤ registry.size := by
  have hlisted : registry.smallestFree id ≤ (registry.allOf id).length := by
    have hgap := firstGap_le 0 (registry.ofId id).keys
    have hlength : (registry.ofId id).keys.length = (registry.allOf id).length := by
      unfold allOf SortedMap.keys SortedMap.values
      rw [List.length_map, List.length_map]
    unfold smallestFree
    omega
  have hregistered : registry.allOf id ⊆ registry.handles := by
    intro handle hmem
    obtain ⟨number, hfind⟩ := mem_allOf_iff.1 hmem
    rw [mem_handles_iff, ← Bool.not_eq_false, contains_eq_false_iff, (h _ _).2 hfind]
    simp
  have hsize : registry.handles.length = registry.size := List.length_map ..
  have hsub := (List.subperm_of_subset (h.nodup_allOf id) hregistered).length_le
  omega

/-- The first card of an id is the one with the smallest number. -/
theorem firstOf?_eq_some_iff : registry.firstOf? id = some handle ↔
    ∃ number, registry.find? ⟨id, number⟩ = some handle ∧
      ∀ smaller < number, registry.find? ⟨id, smaller⟩ = none :=
  SortedMap.head?_values_eq_some_iff (registry.ofId id)

/-! ## All calls -/

/-- What holds of a registry and the calls that led to it. -/
structure Lawful (registry : Registry) (calls : List Call) : Prop where
  /-- The two tables are inverse to each other. -/
  inverse : ∀ handle key, registry.keyOf? handle = some key ↔ registry.find? key = some handle
  /-- No id is listed without a card. -/
  listed : ∀ id numbers, registry.byId.find? id = some numbers → numbers.isEmpty = false
  /-- A call to register is refused, and changes nothing, just if the card or the key is taken. -/
  refused : ∀ key handle, registry.serve (.insert key handle) = (registry, .accepted false) ↔
    registry.Taken key handle
  /-- Otherwise the card gets the key, and nothing else changes. -/
  accepted : ∀ key handle, ¬ registry.Taken key handle →
    (registry.serve (.insert key handle)).2 = .accepted true ∧
      ∀ wanted, (registry.serve (.insert key handle)).1.keyOf? wanted =
        if wanted = handle then some key else registry.keyOf? wanted
  /-- A card that is taken out had the key that it was registered under. -/
  released : ∀ handle key, (registry.serve (.remove handle)).2 = .released (some key) ↔
    Standing calls key handle
  /-- Nothing but this card is taken out. -/
  removed : ∀ handle wanted, (registry.serve (.remove handle)).1.keyOf? wanted =
    if wanted = handle then none else registry.keyOf? wanted
  /-- The smallest free number is free, and it is at most the number of cards. -/
  free : ∀ id, registry.find? ⟨id, registry.smallestFree id⟩ = none ∧
    registry.smallestFree id ≤ registry.size
  /-- All smaller numbers are used. -/
  smallest : ∀ id, ∀ number < registry.smallestFree id,
    ∃ handle, registry.find? ⟨id, number⟩ = some handle
  /-- The cards of an id are those under its numbers, by ascending number. -/
  numbered : ∀ id, ∃ numbers : List Nat, numbers.Pairwise (· < ·) ∧
    (∀ number, number ∈ numbers ↔ ∃ handle, registry.find? ⟨id, number⟩ = some handle) ∧
    numbers.map (fun number => registry.find? ⟨id, number⟩) = (registry.allOf id).map some
  /-- The first card of an id is the head of these, the one with the smallest number. -/
  first : ∀ id, registry.firstOf? id = (registry.allOf id).head? ∧
    ∀ handle, registry.firstOf? id = some handle ↔
      ∃ number, registry.find? ⟨id, number⟩ = some handle ∧
        ∀ smaller < number, registry.find? ⟨id, smaller⟩ = none
  /-- All cards are listed by ascending handle, so none is listed twice. -/
  ascending : registry.handles.Pairwise (·.index < ·.index)
  /-- What is listed is what has a key. -/
  registered : ∀ handle, handle ∈ registry.handles ↔ ∃ key, registry.keyOf? handle = some key

theorem contains_iff :
    registry.contains handle = true ↔ ∃ key, registry.keyOf? handle = some key :=
  Option.isSome_iff_exists

/-- A registry is a bijection between cards and keys after any calls, with refused and useless calls
among them, and it allocates the smallest number that is free. -/
theorem lawful_served (calls : List Call) : (served calls).Lawful calls where
  inverse := (wellKept_served calls).consistent
  listed := (wellKept_served calls).listed
  refused key handle := by
    refine ⟨fun h => ?_, serve_insert_of_taken⟩
    by_contra hfree
    have haccepted := serve_insert_accepted_iff.2 hfree
    rw [h] at haccepted
    cases haccepted
  accepted key handle hfree := by
    refine ⟨serve_insert_accepted_iff.2 hfree, fun wanted => ?_⟩
    rw [serve_insert_of_not_taken hfree]
    exact keyOf?_insert ..
  released handle key := by
    rw [← keyOf?_served_iff]
    constructor
    · exact fun h => Answer.released.inj h
    · exact fun h => congrArg Answer.released h
  removed handle wanted := keyOf?_erase ..
  free id := by
    refine ⟨?_, (wellKept_served calls).consistent.smallestFree_le id⟩
    rw [← isFree_iff]
    exact (smallestFree_spec _ id).1
  smallest id number hless := by
    rw [← isFree_eq_false_iff]
    exact (smallestFree_spec _ id).2 number hless
  numbered id := by
    refine ⟨((served calls).ofId id).keys, SortedMap.pairwise_keys _, fun number => ?_,
      map_find?_keys _ id⟩
    rw [mem_keys_ofId_iff, isFree_eq_false_iff]
  first id := ⟨rfl, fun handle => firstOf?_eq_some_iff⟩
  ascending := pairwise_handles _
  registered handle := by rw [mem_handles_iff, contains_iff]

-- A gap is filled first, and a key that is taken is refused.
example : (served [.insert ⟨"torch", 0⟩ ⟨10⟩, .insert ⟨"torch", 2⟩ ⟨12⟩,
    .insert ⟨"torch", 2⟩ ⟨11⟩, .remove ⟨10⟩]).smallestFree "torch" = 0 := by decide

end Registry

end CardRules
