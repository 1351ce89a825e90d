import CardRules.Proofs.Ownership

/-!
The registry and the cards agree in every run: each card that is registered carries the id and the
number of its key, and the scheduler listens to it once. A card keeps its key until it is taken out
of the registry, and gets it back if it is registered again at once. While no card is taken out, the
numbers of an id have no gaps.
-/

namespace CardRules

/-- What the registry knows of a card: its id, its number, and how often the scheduler listens. -/
def Card.entry (card : Card) : String × Option Nat × Nat :=
  (card.id, card.index, card.listeners.count .scheduler)

/-- The ids of all cards. -/
def Forest.ids (forest : Forest) : Array String := forest.cards.map (·.id)

namespace Engine

/-- The registry and the cards say the same. -/
structure Agrees (engine : Engine) : Prop where
  /-- A card has a key if it is found under that key. -/
  consistent : ∀ handle key,
    engine.registry.keyOf? handle = some key ↔ engine.registry.find? key = some handle
  /-- No two cards have the same key. -/
  unshared : ∀ first second key, engine.registry.keyOf? first = some key →
    engine.registry.keyOf? second = some key → first = second
  /-- A registered card has the id and the number of its key. -/
  named : ∀ handle key, engine.registry.keyOf? handle = some key →
    ∃ card, engine.forest.get? handle = some card ∧ card.id = key.id ∧ card.index = some key.index
  /-- The scheduler listens once to each registered card, and to no other. -/
  heard : ∀ handle card, engine.forest.get? handle = some card →
    card.listeners.count .scheduler = if engine.isRegistered handle then 1 else 0

/-- The numbers in use for an id are those below the number of its cards. -/
def Dense (engine : Engine) : Prop :=
  ∀ id index, (∃ handle, engine.registry.find? ⟨id, index⟩ = some handle) ↔
    index < engine.forest.ids.count id

variable {allowed : Operation → Prop} {engine after : Engine} {handle : Handle} {card : Card}
  {key : Key}

/-- The tables of the registry are inverse to each other, and a registered card has the id and the
number of its key. -/
structure Identified (engine : Engine) : Prop where
  consistent : engine.registry.Consistent
  named : ∀ handle key, engine.registry.keyOf? handle = some key →
    ∃ card, engine.forest.get? handle = some card ∧ card.id = key.id ∧ card.index = some key.index

theorem Agrees.identified (h : engine.Agrees) : engine.Identified := ⟨h.consistent, h.named⟩

/-- No two cards have one key, since a key leads to one card. -/
theorem Identified.unshared (h : engine.Identified) {first second : Handle}
    (hfirst : engine.registry.keyOf? first = some key)
    (hsecond : engine.registry.keyOf? second = some key) : first = second :=
  Option.some.inj (((h.consistent first key).1 hfirst).symm.trans
    ((h.consistent second key).1 hsecond))

theorem Agrees.ofIdentified (h : engine.Identified)
    (hheard : ∀ handle card, engine.forest.get? handle = some card →
      card.listeners.count .scheduler = if engine.isRegistered handle then 1 else 0) :
    engine.Agrees :=
  ⟨h.consistent, fun _ _ _ hfirst hsecond => h.unshared hfirst hsecond, h.named, hheard⟩

theorem identified_new (config : Config) (factory : Option Factory) :
    (new config factory).Identified := by
  refine ⟨Registry.consistent_empty, fun handle key h => ?_⟩
  simp [new] at h

theorem agrees_new (config : Config) (factory : Option Factory) : (new config factory).Agrees := by
  refine .ofIdentified (identified_new config factory) fun handle card h => ?_
  simp [new] at h

/-! ## Cards that come and go -/

theorem Identified.register (h : engine.Identified) (handle : Handle) :
    (engine.register handle).Identified := by
  rcases register_cases engine handle with hsame | ⟨card, hnew, hcard⟩
  · rw [hsame]
    exact h
  refine ⟨?_, fun wanted key hkey => ?_⟩
  · rw [register_of_get? hnew hcard]
    exact h.consistent.insert (isRegistered_eq_false_iff.1 hnew)
      (Registry.isFree_iff.1 (isFree_numberFor engine.registry card))
  · rw [keyOf?_register hnew hcard] at hkey
    rw [get?_register hnew hcard]
    by_cases hwanted : wanted = handle
    · rw [if_pos hwanted] at hkey ⊢
      cases hkey
      exact ⟨_, rfl, rfl, rfl⟩
    · rw [if_neg hwanted] at hkey ⊢
      exact h.named wanted key hkey

theorem Agrees.register (h : engine.Agrees) (handle : Handle) :
    (engine.register handle).Agrees := by
  refine .ofIdentified (h.identified.register handle) fun wanted found hfound => ?_
  rcases register_cases engine handle with hsame | ⟨card, hnew, hcard⟩
  · rw [hsame] at hfound ⊢
    exact h.heard wanted found hfound
  rw [get?_register hnew hcard] at hfound
  rw [isRegistered_eq, keyOf?_register hnew hcard]
  by_cases hwanted : wanted = handle
  · -- The scheduler did not listen before, so now it does once.
    rw [if_pos hwanted] at hfound ⊢
    have hheard := h.heard handle card hcard
    rw [hnew] at hheard
    cases hfound
    simpa [Card.subscribe] using hheard
  · rw [if_neg hwanted] at hfound ⊢
    exact h.heard wanted found hfound

/-- The handle of the next card to come is not registered. -/
theorem Identified.keyOf?_next (h : engine.Identified) :
    engine.registry.keyOf? engine.forest.next = none := by
  cases hkey : engine.registry.keyOf? engine.forest.next with
  | none => rfl
  | some key =>
    obtain ⟨_, hcard, -⟩ := h.named _ key hkey
    rw [Forest.get?_next] at hcard
    cases hcard

theorem Agrees.keyOf?_next (h : engine.Agrees) :
    engine.registry.keyOf? engine.forest.next = none := h.identified.keyOf?_next

/-- Old handles keep their cards, and the new one is unknown to the registry. -/
theorem Identified.insert (h : engine.Identified) (card : Card) :
    { engine with forest := engine.forest.insert card }.Identified := by
  refine ⟨h.consistent, fun handle key hkey => ?_⟩
  obtain ⟨found, hfound, hnamed⟩ := h.named handle key hkey
  refine ⟨found, ?_, hnamed⟩
  rw [Forest.get?_insert, if_neg, hfound]
  rintro rfl
  rw [h.keyOf?_next] at hkey
  cases hkey

theorem Agrees.insert (h : engine.Agrees) (hfresh : card.IsFresh) :
    { engine with forest := engine.forest.insert card }.Agrees := by
  refine .ofIdentified (h.identified.insert card) fun handle found hfound => ?_
  rw [Forest.get?_insert] at hfound
  by_cases hhandle : handle = engine.forest.next
  · rw [if_pos hhandle] at hfound
    obtain rfl := Option.some.inj hfound
    have hnew : engine.isRegistered handle = false :=
      isRegistered_eq_false_iff.2 (hhandle ▸ h.keyOf?_next)
    show card.listeners.count .scheduler = if engine.isRegistered handle then 1 else 0
    rw [hnew, hfresh.listeners]
    rfl
  · rw [if_neg hhandle] at hfound
    exact h.heard handle found hfound

theorem Identified.addCard (h : engine.Identified) (card : Card) :
    (engine.addCard card).Identified :=
  (h.insert card).register engine.forest.next

theorem Agrees.addCard (h : engine.Agrees) (hfresh : card.IsFresh) :
    (engine.addCard card).Agrees :=
  (h.insert hfresh).register engine.forest.next

theorem Identified.unregister (h : engine.Identified) (handle : Handle) :
    (engine.unregister handle).Identified := by
  rcases unregister_cases engine handle with hsame | hregistered
  · rw [hsame]
    exact h
  refine ⟨?_, fun wanted key hkey => ?_⟩
  · rw [unregister_of_isRegistered hregistered]
    exact h.consistent.erase handle
  · rw [keyOf?_unregister] at hkey
    rw [get?_unregister hregistered]
    by_cases hwanted : wanted = handle
    · rw [if_pos hwanted] at hkey
      cases hkey
    · rw [if_neg hwanted] at hkey ⊢
      exact h.named wanted key hkey

theorem Agrees.unregister (h : engine.Agrees) (handle : Handle) :
    (engine.unregister handle).Agrees := by
  refine .ofIdentified (h.identified.unregister handle) fun wanted found hfound => ?_
  rcases unregister_cases engine handle with hsame | hregistered
  · rw [hsame] at hfound ⊢
    exact h.heard wanted found hfound
  rw [get?_unregister hregistered] at hfound
  rw [isRegistered_eq, keyOf?_unregister]
  by_cases hwanted : wanted = handle
  · rw [if_pos hwanted] at hfound ⊢
    obtain ⟨card, -, rfl⟩ := Option.map_eq_some_iff.1 hfound
    simp [Card.unsubscribe, List.count_eq_zero]
  · rw [if_neg hwanted] at hfound ⊢
    exact h.heard wanted found hfound

/-! ## Changes -/

/-- Two engines have the same registry, and cards that look alike to it. -/
structure SameEntries (engine after : Engine) : Prop where
  registry : after.registry = engine.registry
  forest : Forest.SameView Card.entry engine.forest after.forest

theorem SameEntries.refl (engine : Engine) : SameEntries engine engine :=
  ⟨rfl, .refl engine.forest⟩

theorem SameEntries.identified (hsame : SameEntries engine after) (h : engine.Identified) :
    after.Identified := by
  refine ⟨hsame.registry ▸ h.consistent, fun handle key hkey => ?_⟩
  rw [hsame.registry] at hkey
  obtain ⟨card, hcard, hid, hindex⟩ := h.named handle key hkey
  obtain ⟨same, hget, hentry⟩ := hsame.forest.exists_get? hcard
  obtain ⟨hid', hindex', -⟩ : same.id = card.id ∧ same.index = card.index ∧ _ := by
    simpa [Card.entry] using hentry
  exact ⟨same, hget, hid'.trans hid, hindex'.trans hindex⟩

theorem SameEntries.agrees (hsame : SameEntries engine after) (h : engine.Agrees) :
    after.Agrees := by
  refine .ofIdentified (hsame.identified h.identified) fun handle found hfound => ?_
  obtain ⟨card, hcard, hentry⟩ := hsame.forest.symm.exists_get? hfound
  obtain ⟨-, -, hcount⟩ : _ ∧ _ ∧
      card.listeners.count .scheduler = found.listeners.count .scheduler := by
    simpa [Card.entry] using hentry
  rw [← hcount, isRegistered_eq, hsame.registry]
  exact h.heard handle card hcard

theorem entry_of_isEdit {change : Card → Card} (h : Card.IsEdit change) (card : Card) :
    (change card).entry = card.entry := by
  obtain ⟨_, _, heq⟩ := h card
  rw [heq]
  rfl

/-- Links and events are nothing to the registry. -/
theorem sameEntries_deliver {forest : Forest}
    (h : Forest.SameView Card.entry engine.forest forest) :
    SameEntries engine { engine with forest }.deliver := by
  refine ⟨registry_deliver _, ?_⟩
  rw [forest_deliver]
  exact h.trans (Forest.sameView_emptied forest)

theorem sameView_attach {forest after : Forest} {parent child : Handle} {intrinsic : Bool}
    (h : forest.attach parent child intrinsic = .ok after) :
    Forest.SameView Card.entry forest after :=
  Forest.sameView_of_attach h (fun _ => rfl) fun _ => rfl

theorem sameView_remove? {forest after : Forest} {parent child : Handle} {force : Bool}
    (h : forest.remove? parent child force = some after) :
    Forest.SameView Card.entry forest after :=
  Forest.sameView_of_remove? h (fun _ => rfl) fun _ => rfl

theorem sameEntries_unsubscribe (engine : Engine) (handle : Handle) (listener : ListenerId) :
    SameEntries engine (engine.unsubscribe handle listener) := by
  unfold unsubscribe
  split
  · refine ⟨rfl, Forest.sameView_modify (fun card => ?_) _ _⟩
    -- Only the external listener goes.
    have hcount : (card.unsubscribe (.external listener)).listeners.count .scheduler =
        card.listeners.count .scheduler := List.count_filter (by simp)
    unfold Card.entry
    rw [hcount]
    rfl
  · exact .refl engine

/-- What a change can mean for the registry. -/
theorem Change.registration (h : Change allowed engine after) :
    SameEntries engine after ∨
      (∃ card, (allowed (.addCard card) ∨
          ∃ factory id, engine.factory = some factory ∧ factory.make? id = some card) ∧
        after = engine.addCard card) ∨
      (∃ handle, allowed (.registerCard handle) ∧ after = engine.register handle) ∨
      ∃ handle, allowed (.unregisterCard handle) ∧ after = engine.unregister handle := by
  cases h with
  | addCard asked => exact .inr (.inl ⟨_, .inl asked, rfl⟩)
  | makeCard known made => exact .inr (.inl ⟨_, .inr ⟨_, _, known, made⟩, rfl⟩)
  | setFactory => exact .inl ⟨rfl, .refl _⟩
  | register asked => exact .inr (.inr (.inl ⟨_, asked, rfl⟩))
  | unregister asked => exact .inr (.inr (.inr ⟨_, asked, rfl⟩))
  | registerRule _ accepted =>
    obtain ⟨-, -, rfl⟩ := registerRule_eq_ok accepted
    exact .inl ⟨rfl, .refl _⟩
  | subscribe =>
    refine .inl ⟨rfl, Forest.sameView_modify (fun card => ?_) _ _⟩
    simp [Card.entry, Card.subscribe]
  | unsubscribe => exact .inl (sameEntries_unsubscribe engine _ _)
  | attach attached => exact .inl (sameEntries_deliver (sameView_attach attached))
  | remove _ removed => exact .inl (sameEntries_deliver (sameView_remove? removed))
  | raise => exact .inl (sameEntries_deliver (Forest.sameView_emit _ _ _))
  | tickAll => exact .inl (sameEntries_deliver (Forest.sameView_foldl_emit _ _ _))
  | deliver => exact .inl (sameEntries_deliver (.refl _))
  | edit edits => exact .inl ⟨rfl, Forest.sameView_modify (entry_of_isEdit edits) _ _⟩
  | keepError => exact .inl ⟨rfl, .refl _⟩
  | note => exact .inl ⟨rfl, .refl _⟩

/-- Every change keeps the keys and their cards together, whatever cards come in. -/
theorem Identified.change (hchange : Change allowed engine after) (h : engine.Identified) :
    after.Identified := by
  rcases hchange.registration with hsame | ⟨card, -, rfl⟩ | ⟨handle, -, rfl⟩ | ⟨handle, -, rfl⟩
  · exact hsame.identified h
  · exact h.addCard card
  · exact h.register handle
  · exact h.unregister handle

/-- Every change keeps the registry and the cards in agreement. -/
theorem Agrees.change (hchange : Change Operation.BringsFresh engine after)
    (hlinked : engine.SoundlyLinked) (h : engine.Agrees) : after.Agrees := by
  rcases hchange.registration with hsame | ⟨card, hcard, rfl⟩ | ⟨handle, -, rfl⟩ | ⟨handle, -, rfl⟩
  · exact hsame.agrees h
  · rcases hcard with hfresh | ⟨factory, id, hfactory, hmade⟩
    · exact h.addCard hfresh
    · exact h.addCard (hlinked.fresh factory hfactory id card hmade)
  · exact h.register handle
  · exact h.unregister handle

/-- The links are sound, the factory makes fresh cards, and the registry agrees with the cards. -/
structure SoundlyListed (engine : Engine) : Prop where
  linked : engine.SoundlyLinked
  agrees : engine.Agrees

theorem soundlyListed_new (config : Config) {factory : Option Factory}
    (h : ∀ made, factory = some made → made.MakesFresh) : (new config factory).SoundlyListed :=
  ⟨soundlyLinked_new config h, agrees_new config factory⟩

theorem SameCards.sameEntries (h : SameCards engine after) : SameEntries engine after :=
  ⟨h.registry, fun handle => by rw [h.forest]⟩

theorem identified_stays : Stays allowed Identified := fun hstep =>
  hstep.keepsCards (fun hsame h => hsame.sameEntries.identified h) .change

theorem SoundlyListed.ofSame (h : engine.SoundlyListed) (hsame : SameCards engine after) :
    after.SoundlyListed :=
  ⟨h.linked.ofSame hsame, hsame.sameEntries.agrees h.agrees⟩

theorem SoundlyListed.change (hchange : Change Operation.BringsFresh engine after)
    (h : engine.SoundlyListed) : after.SoundlyListed :=
  ⟨h.linked.change hchange, h.agrees.change hchange h.linked⟩

theorem soundlyListed_stays : Stays Operation.BringsFresh SoundlyListed := fun hstep =>
  hstep.keepsCards (fun hsame h => h.ofSame hsame) .change

/-! ## Keys that stay -/

theorem keyOf?_register_of_keyOf? (h : engine.registry.keyOf? handle = some key) (other : Handle) :
    (engine.register other).registry.keyOf? handle = some key := by
  rcases register_cases engine other with hsame | ⟨card, hnew, hcard⟩
  · rw [hsame, h]
  · rw [keyOf?_register hnew hcard, if_neg, h]
    rintro rfl
    rw [isRegistered_of_keyOf? h] at hnew
    cases hnew

/-- Nothing but taking the card out of the registry changes its key. -/
theorem Change.keyOf?_eq (hchange : Change (· ≠ .unregisterCard handle) engine after)
    (h : engine.registry.keyOf? handle = some key) : after.registry.keyOf? handle = some key := by
  rcases hchange.registration with hsame | ⟨card, -, rfl⟩ | ⟨other, -, rfl⟩ | ⟨other, hother, rfl⟩
  · rw [hsame.registry, h]
  · have hinserted : { engine with forest := engine.forest.insert card }.registry.keyOf? handle =
        some key := h
    exact keyOf?_register_of_keyOf? hinserted engine.forest.next
  · exact keyOf?_register_of_keyOf? h other
  · rw [keyOf?_unregister, if_neg, h]
    rintro rfl
    exact hother rfl

theorem keyOf?_stays (handle : Handle) (key : Key) :
    Stays (· ≠ .unregisterCard handle) fun engine => engine.registry.keyOf? handle = some key := by
  intro engine after hstep
  exact hstep.keepsCards (fun hsame h => hsame.registry ▸ h) fun hchange h => hchange.keyOf?_eq h

/-- A card that is taken out and registered again at once has the key it had. -/
theorem Agrees.keyOf?_register_unregister (h : engine.Agrees)
    (hkey : engine.registry.keyOf? handle = some key) :
    ((engine.unregister handle).register handle).registry.keyOf? handle = some key := by
  obtain ⟨card, hcard, hid, hindex⟩ := h.named handle key hkey
  have hregistered := isRegistered_of_keyOf? hkey
  have hnew : (engine.unregister handle).isRegistered handle = false := by
    rw [isRegistered_eq_false_iff, keyOf?_unregister, if_pos rfl]
  have hget : (engine.unregister handle).forest.get? handle =
      some (card.unsubscribe .scheduler) := by
    rw [get?_unregister hregistered, if_pos rfl, hcard]
    rfl
  -- The card still has its number, and nobody else has taken it.
  have hfree : (engine.unregister handle).registry.isFree ⟨card.id, key.index⟩ = true := by
    rw [unregister_of_isRegistered hregistered, Registry.isFree_iff]
    show (engine.registry.erase handle).find? ⟨card.id, key.index⟩ = none
    rw [Registry.find?_erase, hid, if_pos hkey]
  have hnumber := (numbered_numberFor (engine.unregister handle).registry
    (card.unsubscribe .scheduler)).again key.index hindex hfree
  rw [keyOf?_register hnew hget, if_pos rfl]
  unfold keyFor
  rw [hnumber]
  show some (Key.mk card.id key.index) = some key
  rw [hid]

/-! ## Runs in which no card is taken out -/

theorem ids_eq {forest other : Forest} (h : Forest.SameView (fun card => card.id) forest other) :
    other.ids = forest.ids := by
  refine Array.ext_getElem? fun index => ?_
  unfold Forest.ids
  rw [Array.getElem?_map, Array.getElem?_map]
  exact h ⟨index⟩

theorem ids_insert (forest : Forest) (card : Card) :
    (forest.insert card).ids = forest.ids.push card.id := by
  unfold Forest.ids Forest.insert
  exact Array.map_push

theorem ids_register (engine : Engine) (handle : Handle) :
    (engine.register handle).forest.ids = engine.forest.ids := by
  rcases register_cases engine handle with hsame | ⟨card, hnew, hcard⟩
  · rw [hsame]
  · rw [register_of_get? hnew hcard]
    refine ids_eq (Forest.sameView_modify ?_ engine.forest handle)
    exact fun _ => rfl

/-- Every card is registered, and no number is left out. -/
structure Gapless (engine : Engine) : Prop where
  listed : engine.SoundlyListed
  everyone : ∀ handle card, engine.forest.get? handle = some card →
    engine.isRegistered handle = true
  dense : engine.Dense

theorem gapless_new (config : Config) {factory : Option Factory}
    (h : ∀ made, factory = some made → made.MakesFresh) : (new config factory).Gapless := by
  refine ⟨soundlyListed_new config h, fun handle card hcard => ?_, fun id index => ?_⟩
  · simp [new] at hcard
  · constructor
    · rintro ⟨handle, hfind⟩
      cases hfind
    · intro h
      have hcount : (new config factory).forest.ids.count id = 0 := by
        simp [new, Forest.ids, EmptyCollection.emptyCollection]
      omega

/-- The smallest free number of an id is the number of its cards. -/
theorem Dense.numberFor_eq (h : engine.Dense) (hfresh : card.IsFresh) :
    numberFor engine.registry card = engine.forest.ids.count card.id := by
  have hused : ∀ index, engine.registry.isFree ⟨card.id, index⟩ = false ↔
      index < engine.forest.ids.count card.id :=
    fun index => Registry.isFree_eq_false_iff.trans (h card.id index)
  obtain ⟨hfree, hsmaller⟩ := (numbered_numberFor engine.registry card).smallest
    fun index hindex => by simp [hfresh.index] at hindex
  -- The numbers below the count are used and no others, so the first free one is the count.
  refine Nat.le_antisymm ?_ ?_
  · refine Nat.le_of_not_lt fun hless => ?_
    exact absurd ((hused _).1 (hsmaller _ hless)) (Nat.lt_irrefl _)
  · refine Nat.le_of_not_lt fun hless => ?_
    rw [(hused _).2 hless] at hfree
    cases hfree

/-- A card that comes in gets the number that follows those of the cards with its id. -/
theorem Gapless.addCard (h : engine.Gapless) (hfresh : card.IsFresh) :
    (engine.addCard card).Gapless := by
  have hnew : { engine with forest := engine.forest.insert card }.isRegistered
      engine.forest.next = false := isRegistered_eq_false_iff.2 h.listed.agrees.keyOf?_next
  have hget : { engine with forest := engine.forest.insert card }.forest.get?
      engine.forest.next = some card := by
    rw [Forest.get?_insert, if_pos rfl]
  refine ⟨⟨h.listed.linked.addCard hfresh, h.listed.agrees.addCard hfresh⟩,
    fun handle found hfound => ?_, fun id index => ?_⟩
  · unfold Engine.addCard at hfound ⊢
    rw [get?_register hnew hget] at hfound
    rw [isRegistered_eq, keyOf?_register hnew hget]
    by_cases hhandle : handle = engine.forest.next
    · rw [if_pos hhandle]
      rfl
    · rw [if_neg hhandle] at hfound ⊢
      rw [Forest.get?_insert, if_neg hhandle] at hfound
      exact h.everyone handle found hfound
  · unfold Engine.addCard
    rw [ids_register, register_of_get? hnew hget, ids_insert, Array.count_push]
    show (∃ handle, (engine.registry.insert (keyFor engine.registry card) engine.forest.next).find?
      ⟨id, index⟩ = some handle) ↔ _
    rw [Registry.find?_insert]
    unfold keyFor
    rw [h.dense.numberFor_eq hfresh]
    have hdense := h.dense id index
    -- The new number is the old count, which is one more now.
    by_cases hid : id = card.id
    · subst hid
      by_cases hindex : index = engine.forest.ids.count card.id
      · simp [hindex]
      · simp [hindex, hdense]
        omega
    · simp [hid, Ne.symm hid, hdense]

theorem Gapless.ofSame (h : engine.Gapless) (hsame : SameEntries engine after)
    (hlisted : after.SoundlyListed) : after.Gapless := by
  refine ⟨hlisted, fun handle found hfound => ?_, fun id index => ?_⟩
  · obtain ⟨card, hcard, -⟩ := hsame.forest.symm.exists_get? hfound
    rw [isRegistered_eq, hsame.registry]
    exact h.everyone handle card hcard
  · rw [hsame.registry, ids_eq (hsame.forest.comp (·.1))]
    exact h.dense id index

/-- The operations of a run in which the cards come in fresh and none is taken out. -/
def KeepsCards (operation : Operation) : Prop :=
  operation.BringsFresh ∧ ∀ handle, operation ≠ .unregisterCard handle

theorem Gapless.change (hchange : Change KeepsCards engine after) (h : engine.Gapless) :
    after.Gapless := by
  have hlisted := h.listed.change (hchange.mono fun _ hkeeps => hkeeps.1)
  rcases hchange.registration with
    hsame | ⟨card, hcard, rfl⟩ | ⟨handle, -, rfl⟩ | ⟨handle, hout, rfl⟩
  · exact h.ofSame hsame hlisted
  · rcases hcard with hfresh | ⟨factory, id, hfactory, hmade⟩
    · exact h.addCard hfresh.1
    · exact h.addCard (h.listed.linked.fresh factory hfactory id card hmade)
  · -- All cards are registered already.
    rcases register_cases engine handle with hsame | ⟨card, hnew, hcard⟩
    · rw [hsame]
      exact h
    · rw [h.everyone handle card hcard] at hnew
      cases hnew
  · exact absurd rfl (hout.2 handle)

theorem gapless_stays : Stays KeepsCards Gapless := fun hstep =>
  hstep.keepsCards (fun hsame h => h.ofSame hsame.sameEntries (h.listed.ofSame hsame)) .change

/-! ## The law -/

/-- In every run whose cards come in fresh, the registry and the cards agree, at the end and
whenever the program or a callback sees the engine. A card that is registered gets the number it
had, if that is free, and the smallest free one otherwise. A card keeps its key as long as it is not
taken out of the registry, and it has the same key again if it is registered at once. In a run that
takes no card out, the numbers of each id are those below the number of its cards. -/
theorem registry_agrees_throughout {α : Type} {callbacks : Callbacks} {depth : Nat}
    {program : Program α} {config : Config} {factory : Option Factory}
    (hcallbacks : callbacks.AskOnly Operation.BringsFresh)
    (hprogram : program.AsksOnly Operation.BringsFresh)
    (hfactory : ∀ made, factory = some made → made.MakesFresh) :
    Upholds Agrees callbacks depth program (new config factory) ∧
      (∀ (engine : Engine) (handle : Handle) (card : Card), engine.isRegistered handle = false →
        engine.forest.get? handle = some card →
          ∃ number, (engine.register handle).registry.keyOf? handle = some ⟨card.id, number⟩ ∧
            card.Numbered engine.registry number) ∧
      (∀ (engine : Engine) (handle : Handle) (key : Key),
        callbacks.AskOnly (· ≠ .unregisterCard handle) →
          program.AsksOnly (· ≠ .unregisterCard handle) →
            engine.registry.keyOf? handle = some key →
              Upholds (·.registry.keyOf? handle = some key) callbacks depth program engine) ∧
      (∀ (engine : Engine) (handle : Handle) (key : Key), engine.Agrees →
        engine.registry.keyOf? handle = some key →
          ((engine.unregister handle).register handle).registry.keyOf? handle = some key) ∧
      (callbacks.AskOnly (fun operation => ∀ handle, operation ≠ .unregisterCard handle) →
        program.AsksOnly (fun operation => ∀ handle, operation ≠ .unregisterCard handle) →
          Upholds Dense callbacks depth program (new config factory)) := by
  refine ⟨?_, fun engine handle card hnew hcard => ?_,
    fun engine handle key hcallbacks' hprogram' hkey => ?_,
    fun engine handle key hagrees hkey => hagrees.keyOf?_register_unregister hkey,
    fun hcallbacks' hprogram' => ?_⟩
  · exact upholds_of_stays soundlyListed_stays (fun _ h => h.agrees) hcallbacks depth hprogram
      (soundlyListed_new config hfactory)
  · refine ⟨numberFor engine.registry card, ?_, numbered_numberFor engine.registry card⟩
    rw [keyOf?_register hnew hcard, if_pos rfl]
    rfl
  · exact upholds_of_stays (keyOf?_stays handle key) (fun _ h => h) hcallbacks' depth hprogram' hkey
  · have hcallbacks : callbacks.AskOnly KeepsCards :=
      fun name context => (hcallbacks name context).and (hcallbacks' name context)
    have hprogram : program.AsksOnly KeepsCards := hprogram.and hprogram'
    exact upholds_of_stays gapless_stays (fun _ h => h.dense) hcallbacks depth hprogram
      (gapless_new config hfactory)

theorem lighting_agrees_throughout :
    Upholds Agrees moving 1 lighting (new {} torches) ∧
      Upholds Dense moving 1 lighting (new {} torches) ∧
      ∃ result after, run moving 1 lighting (new {} torches) = some (result, after) ∧
        after.registry.keyOf? ⟨1⟩ = some ⟨"torch", 0⟩ ∧
        Upholds (·.registry.keyOf? ⟨1⟩ = some ⟨"torch", 0⟩) moving 1 lighting after ∧
        ((after.unregister ⟨1⟩).register ⟨1⟩).registry.keyOf? ⟨1⟩ = some ⟨"torch", 0⟩ := by
  obtain ⟨hagrees, -, hstays, hagain, hdense⟩ := @registry_agrees_throughout Unit moving 1 lighting
    {} torches askOnly_moving asksOnly_lighting makesFresh_torches
  have hmoving : ∀ handle, moving.AskOnly (· ≠ .unregisterCard handle) :=
    fun _ _ _ => ⟨nofun, fun _ => ⟨nofun, fun _ => trivial⟩⟩
  have hlighting : ∀ handle, lighting.AsksOnly (· ≠ .unregisterCard handle) :=
    fun _ => ⟨nofun, fun _ => ⟨nofun, fun _ => ⟨nofun, fun _ => trivial⟩⟩⟩
  have hkey : (run moving 1 lighting (new {} torches)).map
      (fun (_, after) => after.registry.keyOf? ⟨1⟩) = some (some ⟨"torch", 0⟩) := by
    decide +kernel
  obtain ⟨⟨result, after⟩, hrun, hafter⟩ := Option.map_eq_some_iff.1 hkey
  have hafter : after.registry.keyOf? ⟨1⟩ = some ⟨"torch", 0⟩ := hafter
  refine ⟨hagrees, ?_, result, after, hrun, hafter, ?_, ?_⟩
  · refine hdense (fun _ _ => ⟨nofun, fun _ => ⟨nofun, fun _ => trivial⟩⟩)
      ⟨nofun, fun _ => ⟨nofun, fun _ => ⟨nofun, fun _ => trivial⟩⟩⟩
  · exact hstays after ⟨1⟩ ⟨"torch", 0⟩ (hmoving ⟨1⟩) (hlighting ⟨1⟩) hafter
  · exact hagain after ⟨1⟩ ⟨"torch", 0⟩ (hagrees.final hrun) hafter

end Engine

end CardRules
