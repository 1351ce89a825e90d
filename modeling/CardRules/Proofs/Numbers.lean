import CardRules.Engine.Cards

/-!
Keys and numbers. The two tables of a registry are inverse to each other, and a card that is
registered gets the number it had if that is free, and else the smallest one that no card of its id
has. What registering one card and taking one out do is given here too, by one equation for each
look-up.
-/

namespace CardRules

/-- The keys of an ascending map, without repetition and in order. -/
theorem SortedMap.mem_keys_iff {α β : Type} [Ord α] [Std.TransOrd α] [Std.LawfulEqOrd α]
    (map : SortedMap α β) (key : α) :
    key ∈ map.keys ↔ (map.find? key).isSome = true := by
  rw [Option.isSome_iff_exists]
  unfold keys
  rw [List.mem_map]
  constructor
  · rintro ⟨⟨_, value⟩, hmem, rfl⟩
    exact ⟨value, (find?_eq_some_iff map).2 hmem⟩
  · rintro ⟨value, hfind⟩
    exact ⟨(key, value), (find?_eq_some_iff map).1 hfind, rfl⟩

theorem SortedMap.pairwise_keys {β : Type} (map : SortedMap Nat β) : map.keys.Pairwise (· < ·) := by
  refine List.pairwise_map.2 (map.ascending.imp fun {first second} h => ?_)
  exact Nat.compare_eq_lt.1 h

/-- The registered cards, by ascending handle. -/
theorem Registry.mem_handles_iff (registry : Registry) (handle : Handle) :
    handle ∈ registry.handles ↔ registry.contains handle = true :=
  SortedMap.mem_keys_iff ..

theorem Registry.pairwise_handles (registry : Registry) :
    registry.handles.Pairwise (·.index < ·.index) := by
  refine List.pairwise_map.2 (registry.keys.ascending.imp fun {first second} h => ?_)
  exact Nat.compare_eq_lt.1 h

theorem SortedMap.eq_empty_of_isEmpty {β : Type} {map : SortedMap Nat β}
    (h : map.isEmpty = true) : map = ∅ := by
  obtain ⟨entries, ascending⟩ := map
  obtain rfl : entries = [] := List.isEmpty_iff.1 h
  rfl

namespace Registry

variable {registry : Registry}

/-! ## The smallest free number -/

/-- A gap is none of the numbers, and all numbers before it are used. -/
theorem firstGap_spec {start : Nat} {used : List Nat} (hascending : used.Pairwise (· < ·))
    (hstart : ∀ number ∈ used, start ≤ number) :
    start ≤ firstGap start used ∧ firstGap start used ∉ used ∧
      ∀ number, start ≤ number → number < firstGap start used → number ∈ used := by
  induction used generalizing start with
  | nil => exact ⟨Nat.le_refl start, List.not_mem_nil, fun _ h h' => absurd h' (Nat.not_lt.2 h)⟩
  | cons first rest ih =>
    obtain ⟨hfirst, hrest⟩ := List.pairwise_cons.1 hascending
    unfold firstGap
    by_cases h : first = start
    · -- The start is used, so the gap is looked for above it.
      rw [if_pos h]
      have hlater : ∀ number ∈ rest, start + 1 ≤ number := fun number hmem => h ▸ hfirst number hmem
      obtain ⟨hle, hgap, hused⟩ := ih hrest hlater
      refine ⟨by omega, ?_, fun number hnumber hbefore => ?_⟩
      · rw [List.mem_cons]
        rintro (heq | hmem)
        · omega
        · exact hgap hmem
      · rcases Nat.lt_or_eq_of_le hnumber with hless | heq
        · exact List.mem_cons_of_mem _ (hused number hless hbefore)
        · rw [← heq, ← h]
          exact List.mem_cons_self
    · -- The smallest number is above the start, so the start itself is the gap.
      rw [if_neg h]
      have hless : start < first := Nat.lt_of_le_of_ne (hstart first List.mem_cons_self) (Ne.symm h)
      refine ⟨Nat.le_refl start, ?_, fun number hnumber hbefore => absurd hbefore (by omega)⟩
      rw [List.mem_cons]
      rintro (heq | hmem)
      · exact h heq.symm
      · have hbeyond := hfirst start hmem
        omega

theorem isFree_iff {key : Key} : registry.isFree key = true ↔ registry.find? key = none := by
  unfold isFree
  exact Option.isNone_iff_eq_none

theorem isFree_eq_false_iff {key : Key} :
    registry.isFree key = false ↔ ∃ handle, registry.find? key = some handle := by
  unfold isFree
  rw [Option.isNone_eq_false_iff, Option.isSome_iff_exists]

theorem mem_keys_ofId_iff {id : String} {number : Nat} :
    number ∈ (registry.ofId id).keys ↔ registry.isFree ⟨id, number⟩ = false := by
  rw [SortedMap.mem_keys_iff, isFree_eq_false_iff, Option.isSome_iff_exists]
  rfl

/-- The smallest free number is free, and all smaller ones are not. -/
theorem smallestFree_spec (registry : Registry) (id : String) :
    registry.isFree ⟨id, registry.smallestFree id⟩ = true ∧
      ∀ number < registry.smallestFree id, registry.isFree ⟨id, number⟩ = false := by
  obtain ⟨-, hgap, hused⟩ := firstGap_spec (registry.ofId id).pairwise_keys
    fun number _ => Nat.zero_le number
  refine ⟨?_, fun number hless => ?_⟩
  · rw [← Bool.not_eq_false, ← mem_keys_ofId_iff]
    exact hgap
  · rw [← mem_keys_ofId_iff]
    exact hused number (Nat.zero_le number) hless

/-! ## Two tables that agree -/

/-- The two tables of a registry are inverse to each other. -/
def Consistent (registry : Registry) : Prop :=
  ∀ handle key, registry.keyOf? handle = some key ↔ registry.find? key = some handle

theorem consistent_empty : (∅ : Registry).Consistent := fun _ _ => by simp

theorem contains_eq_false_iff {handle : Handle} :
    registry.contains handle = false ↔ registry.keyOf? handle = none := by
  unfold contains keyOf? SortedMap.contains
  rw [← Bool.not_eq_true, Option.not_isSome_iff_eq_none]

theorem Consistent.insert (h : registry.Consistent) {key : Key} {handle : Handle}
    (hcard : registry.keyOf? handle = none) (hfree : registry.find? key = none) :
    (registry.insert key handle).Consistent := by
  intro wanted wantedKey
  rw [keyOf?_insert, find?_insert]
  by_cases hwanted : wanted = handle
  · subst hwanted
    rw [if_pos rfl]
    by_cases hkey : wantedKey = key
    · simp [hkey]
    · rw [if_neg hkey, ← h, hcard]
      simp [Ne.symm hkey]
  · rw [if_neg hwanted]
    by_cases hkey : wantedKey = key
    · subst hkey
      rw [if_pos rfl, h, hfree]
      simp [Ne.symm hwanted]
    · rw [if_neg hkey]
      exact h wanted wantedKey

theorem ofId_erase {handle : Handle} {key : Key} (h : registry.keyOf? handle = some key)
    (id : String) :
    (registry.erase handle).ofId id =
      if id = key.id then (registry.ofId id).erase key.index else registry.ofId id := by
  unfold erase
  simp only [h]
  by_cases hempty : ((registry.ofId key.id).erase key.index).isEmpty = true
  · -- The id goes when its last card goes, and looks the same as an id without cards.
    rw [if_pos hempty]
    by_cases hid : id = key.id
    · subst hid
      rw [if_pos rfl, SortedMap.eq_empty_of_isEmpty hempty]
      simp [ofId, SortedMap.find?_erase]
    · simp [ofId, SortedMap.find?_erase, hid]
  · rw [if_neg hempty]
    by_cases hid : id = key.id
    · subst hid
      simp [ofId, SortedMap.find?_insert]
    · simp [ofId, SortedMap.find?_insert, hid]

/-- What is found once a card was taken out is what was found before, but for the key of that
card. -/
theorem find?_erase (registry : Registry) (handle : Handle) (wanted : Key) :
    (registry.erase handle).find? wanted =
      if registry.keyOf? handle = some wanted then none else registry.find? wanted := by
  cases h : registry.keyOf? handle with
  | none =>
    have herase : registry.erase handle = registry := by
      unfold erase
      simp only [h]
    rw [herase, if_neg (by simp)]
  | some key =>
    obtain ⟨id, index⟩ := key
    obtain ⟨wantedId, wantedIndex⟩ := wanted
    unfold find?
    rw [ofId_erase h]
    by_cases hid : wantedId = id
    · subst hid
      by_cases hindex : wantedIndex = index
      · simp [SortedMap.find?_erase, hindex]
      · simp [SortedMap.find?_erase, hindex, Ne.symm hindex]
    · simp [hid, Ne.symm hid]

theorem Consistent.erase (h : registry.Consistent) (handle : Handle) :
    (registry.erase handle).Consistent := by
  intro wanted key
  rw [keyOf?_erase, find?_erase]
  by_cases hkey : registry.keyOf? handle = some key
  · -- The key goes together with its card.
    rw [if_pos hkey]
    by_cases hwanted : wanted = handle
    · simp [hwanted]
    · rw [if_neg hwanted, h, (h handle key).1 hkey]
      simp [Ne.symm hwanted]
  · rw [if_neg hkey]
    by_cases hwanted : wanted = handle
    · subst hwanted
      rw [if_pos rfl, ← h]
      simp [hkey]
    · rw [if_neg hwanted]
      exact h wanted key

end Registry

/-! ## The number of a card -/

/-- A number that a card may get from a registry: the one it had, if that is free, and else the
smallest free one. -/
structure Card.Numbered (card : Card) (registry : Registry) (number : Nat) : Prop where
  again : ∀ index, card.index = some index → registry.isFree ⟨card.id, index⟩ = true →
    number = index
  smallest : (∀ index, card.index = some index → registry.isFree ⟨card.id, index⟩ = false) →
    registry.isFree ⟨card.id, number⟩ = true ∧
      ∀ smaller < number, registry.isFree ⟨card.id, smaller⟩ = false

theorem numbered_numberFor (registry : Registry) (card : Card) :
    card.Numbered registry (Engine.numberFor registry card) := by
  have hsmallest := registry.smallestFree_spec card.id
  unfold Engine.numberFor
  cases hindex : card.index with
  | none =>
    refine ⟨fun index hsome => ?_, fun _ => hsmallest⟩
    rw [hindex] at hsome
    cases hsome
  | some index =>
    by_cases hfree : registry.isFree ⟨card.id, index⟩ = true
    · simp only [hfree, if_true]
      refine ⟨fun other hother _ => ?_, fun hused => ?_⟩
      · exact Option.some.inj (hindex.symm.trans hother)
      · rw [hused index hindex] at hfree
        cases hfree
    · simp only [hfree]
      refine ⟨fun other hother hfree' => ?_, fun _ => hsmallest⟩
      obtain rfl := Option.some.inj (hindex.symm.trans hother)
      exact absurd hfree' hfree

/-- The number of a card is free until the card is registered. -/
theorem isFree_numberFor (registry : Registry) (card : Card) :
    registry.isFree ⟨card.id, Engine.numberFor registry card⟩ = true := by
  unfold Engine.numberFor
  split
  · split
    · assumption
    · exact (registry.smallestFree_spec card.id).1
  · exact (registry.smallestFree_spec card.id).1

namespace Engine

variable {engine : Engine} {handle : Handle} {card : Card} {key : Key}

/-! ## Registering one card -/

theorem isRegistered_eq (engine : Engine) (handle : Handle) :
    engine.isRegistered handle = (engine.registry.keyOf? handle).isSome := rfl

theorem isRegistered_eq_false_iff :
    engine.isRegistered handle = false ↔ engine.registry.keyOf? handle = none :=
  Registry.contains_eq_false_iff

theorem isRegistered_of_keyOf? (h : engine.registry.keyOf? handle = some key) :
    engine.isRegistered handle = true := by
  rw [← Bool.not_eq_false, isRegistered_eq_false_iff, h]
  simp

/-- A card that is registered stays as it is, and so does a handle of no card. -/
theorem register_of_isRegistered (h : engine.isRegistered handle = true) :
    engine.register handle = engine := by
  unfold register
  rw [if_pos h]

theorem register_of_get?_eq_none (h : engine.forest.get? handle = none) :
    engine.register handle = engine := by
  unfold register
  rw [h]
  split <;> rfl

/-- Only a card that is not registered yet is. -/
theorem register_cases (engine : Engine) (handle : Handle) :
    engine.register handle = engine ∨
      ∃ card, engine.isRegistered handle = false ∧ engine.forest.get? handle = some card := by
  cases hregistered : engine.isRegistered handle with
  | true => exact .inl (register_of_isRegistered hregistered)
  | false =>
    cases hcard : engine.forest.get? handle with
    | none => exact .inl (register_of_get?_eq_none hcard)
    | some card => exact .inr ⟨card, rfl, rfl⟩

/-- The key that a card gets from a registry. -/
def keyFor (registry : Registry) (card : Card) : Key := ⟨card.id, numberFor registry card⟩

theorem register_of_get? (hnew : engine.isRegistered handle = false)
    (hcard : engine.forest.get? handle = some card) :
    engine.register handle =
      { engine with
        registry := engine.registry.insert (keyFor engine.registry card) handle
        forest := engine.forest.modify handle fun card' =>
          { card' with index := some (numberFor engine.registry card) }.subscribe .scheduler } := by
  unfold register
  rw [hnew, hcard]
  rfl

theorem keyOf?_register (hnew : engine.isRegistered handle = false)
    (hcard : engine.forest.get? handle = some card) (wanted : Handle) :
    (engine.register handle).registry.keyOf? wanted =
      if wanted = handle then some (keyFor engine.registry card)
      else engine.registry.keyOf? wanted := by
  rw [register_of_get? hnew hcard]
  exact Registry.keyOf?_insert ..

theorem get?_register (hnew : engine.isRegistered handle = false)
    (hcard : engine.forest.get? handle = some card) (wanted : Handle) :
    (engine.register handle).forest.get? wanted =
      if wanted = handle then
        some ({ card with index := some (numberFor engine.registry card) }.subscribe .scheduler)
      else engine.forest.get? wanted := by
  rw [register_of_get? hnew hcard]
  show (engine.forest.modify _ _).get? wanted = _
  rw [Forest.get?_modify]
  by_cases h : wanted = handle
  · rw [if_pos h, if_pos h, h, hcard]
    rfl
  · rw [if_neg h, if_neg h]

/-! ## Taking one card out -/

theorem unregister_of_isRegistered (h : engine.isRegistered handle = true) :
    engine.unregister handle =
      { engine with
        registry := engine.registry.erase handle
        forest := engine.forest.modify handle (·.unsubscribe .scheduler) } := by
  unfold unregister
  rw [if_pos h]

theorem unregister_of_not_isRegistered (h : ¬ engine.isRegistered handle = true) :
    engine.unregister handle = engine := by
  unfold unregister
  rw [if_neg h]

theorem keyOf?_unregister (engine : Engine) (handle wanted : Handle) :
    (engine.unregister handle).registry.keyOf? wanted =
      if wanted = handle then none else engine.registry.keyOf? wanted := by
  by_cases hregistered : engine.isRegistered handle = true
  · rw [unregister_of_isRegistered hregistered]
    exact Registry.keyOf?_erase ..
  · rw [unregister_of_not_isRegistered hregistered]
    by_cases hwanted : wanted = handle
    · rw [if_pos hwanted, hwanted]
      exact isRegistered_eq_false_iff.1 (by simpa using hregistered)
    · rw [if_neg hwanted]

theorem get?_unregister (h : engine.isRegistered handle = true) (wanted : Handle) :
    (engine.unregister handle).forest.get? wanted =
      if wanted = handle then (engine.forest.get? wanted).map (·.unsubscribe .scheduler)
      else engine.forest.get? wanted := by
  rw [unregister_of_isRegistered h]
  exact Forest.get?_modify ..

theorem unregister_cases (engine : Engine) (handle : Handle) :
    engine.unregister handle = engine ∨ engine.isRegistered handle = true := by
  by_cases h : engine.isRegistered handle = true
  · exact .inr h
  · exact .inl (unregister_of_not_isRegistered h)

end Engine

end CardRules
