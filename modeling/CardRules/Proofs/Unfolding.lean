import CardRules.Proofs.Expansion

/-!
What a template stands for: its card, and below it the cards of its parts, each of them with the
cards of its own parts in turn. To make the card of a template is to lay these cards out in the
forest, each before those of its parts, and to report each part once all of it is there.
-/

namespace CardRules

open EngineM

/-! ## Cards and their parts -/

/-- Cards side by side, each of them with its parts. -/
inductive Unfolding where
  | nil
  | cons (card : Card) (parts rest : Unfolding)

/-- A card as it stands once it is registered with a number and its parts are joined to it. -/
def Card.assembled (card : Card) (number : Nat) (owner : Option Handle) (parts : List Handle) :
    Card :=
  { card with
    index := some number
    children := parts
    intrinsic := .ofList parts
    owner := owner
    listeners := [.scheduler] }

/-- One part more is joined to a card. -/
theorem Card.withChild_assembled (card : Card) (number : Nat) (owner : Option Handle)
    (parts : List Handle) (part : Handle) :
    (card.assembled number owner parts).withChild part true =
      card.assembled number owner (parts ++ [part]) := by
  have hmembers : (SortedSet.ofList parts).insert part = .ofList (parts ++ [part]) := by
    unfold SortedSet.ofList
    rw [List.foldl_append]
    rfl
  unfold withChild assembled
  simp [hmembers]

/-- A card that is complete is joined to another one. -/
theorem Card.withOwner_assembled (card : Card) (number : Nat) (owner owner' : Option Handle)
    (parts : List Handle) :
    (card.assembled number owner parts).withOwner owner' = card.assembled number owner' parts :=
  rfl

namespace Unfolding

variable {forest after : Forest} {owner : Option Handle} {place : Nat} {unfolding : Unfolding}

/-- The cards in the order in which they come in, each before those of its parts. -/
def cards : Unfolding → List Card
  | nil => []
  | cons card parts rest => card :: (parts.cards ++ rest.cards)

/-- The handles of the cards that stand side by side, the first of them at a place. -/
def row (place : Nat) : Unfolding → List Handle
  | nil => []
  | cons _ parts rest => ⟨place⟩ :: rest.row (place + 1 + parts.cards.length)

/-- The events that join the cards side by side to an owner, and before each of them those that join
its parts to it. -/
def joins (owner : Handle) (place : Nat) : Unfolding → List Raised
  | nil => []
  | cons _ parts rest =>
    parts.joins ⟨place⟩ (place + 1) ++
      ⟨⟨place⟩, .added owner⟩ :: rest.joins owner (place + 1 + parts.cards.length)

/-- The cards stand in a forest from a place on. The children of each are its parts, all of them
intrinsic, and those that stand side by side have one owner. -/
def StandsIn (forest : Forest) (owner : Option Handle) (place : Nat) : Unfolding → Prop
  | nil => True
  | cons card parts rest =>
    (∃ number, forest.get? ⟨place⟩ =
        some (card.assembled number owner (parts.row (place + 1)))) ∧
      parts.StandsIn forest (some ⟨place⟩) (place + 1) ∧
      rest.StandsIn forest owner (place + 1 + parts.cards.length)

/-- Where cards stand depends on the places that they take up and on no others. -/
theorem StandsIn.congr (h : unfolding.StandsIn forest owner place)
    (hsame : ∀ index, place ≤ index → index < place + unfolding.cards.length →
      after.get? ⟨index⟩ = forest.get? ⟨index⟩) :
    unfolding.StandsIn after owner place := by
  induction unfolding generalizing owner place with
  | nil => trivial
  | cons card parts rest ihParts ihRest =>
    obtain ⟨⟨number, hcard⟩, hparts, hrest⟩ := h
    have hlength : (cons card parts rest).cards.length =
        1 + parts.cards.length + rest.cards.length := by
      simp only [cards, List.length_cons, List.length_append]
      omega
    refine ⟨⟨number, ?_⟩, ?_, ?_⟩
    · rw [hsame place (Nat.le_refl place) (by omega)]
      exact hcard
    · apply ihParts hparts
      intro index hge hless
      apply hsame <;> omega
    · apply ihRest hrest
      intro index hge hless
      apply hsame <;> omega

end Unfolding

/-! ## What a catalog says -/

namespace Catalog

variable {catalog : Catalog} {id : String} {ids : List String} {template : Template}
  {unfolding other : Unfolding}

/-- The cards that ids stand for, with their parts. An id without a template is passed over, and one
that is listed again stands for one more card. Templates that are parts of themselves stand for
nothing. -/
inductive Unfolds (catalog : Catalog) : List String → Unfolding → Prop
  | nil : Unfolds catalog [] .nil
  | skip {id : String} {ids : List String} {unfolding : Unfolding}
      (unknown : catalog.find? id = none) (rest : Unfolds catalog ids unfolding) :
      Unfolds catalog (id :: ids) unfolding
  | make {id : String} {ids : List String} {template : Template} {parts unfolding : Unfolding}
      (found : catalog.find? id = some template) (below : Unfolds catalog template.parts parts)
      (rest : Unfolds catalog ids unfolding) :
      Unfolds catalog (id :: ids) (.cons (.ofTemplate template) parts unfolding)

/-- The cards that ids stand for are as their templates describe them. -/
theorem Unfolds.isFresh (h : catalog.Unfolds ids unfolding) :
    ∀ card ∈ unfolding.cards, card.IsFresh := by
  induction h with
  | nil =>
    intro card hmem
    cases hmem
  | skip _ _ ih => exact ih
  | @make _ _ template _ _ _ _ _ ihBelow ihRest =>
    intro card hmem
    rw [Unfolding.cards, List.mem_cons, List.mem_append] at hmem
    rcases hmem with rfl | hmem | hmem
    · exact Card.isFresh_ofTemplate template
    · exact ihBelow card hmem
    · exact ihRest card hmem

/-- Ids stand for the same cards whenever they are read. -/
theorem Unfolds.unique (h : catalog.Unfolds ids unfolding) (h' : catalog.Unfolds ids other) :
    unfolding = other := by
  induction h generalizing other with
  | nil =>
    cases h'
    rfl
  | skip hunknown _ ih =>
    cases h' with
    | skip _ hrest => exact ih hrest
    | make hfound _ _ => simp [hunknown] at hfound
  | make hfound _ _ ihBelow ihRest =>
    cases h' with
    | skip hunknown _ => simp [hfound] at hunknown
    | make hfound' hbelow hrest =>
      obtain rfl := Option.some.inj (hfound.symm.trans hfound')
      rw [ihBelow hbelow, ihRest hrest]

theorem knows_ofCatalog (catalog : Catalog) (id : String) :
    (Factory.ofCatalog catalog).knows id = catalog.contains id := by
  unfold Factory.knows Factory.ofCatalog contains
  exact Option.isSome_map

theorem parts_ofCatalog (hfound : catalog.find? id = some template) :
    (Factory.ofCatalog catalog).parts id = template.parts := by
  simp [Factory.ofCatalog, hfound]

/-- Ids whose parts do not nest too deep stand for cards. -/
theorem exists_unfolds {levels : Nat}
    (h : ids.findSome? ((Factory.ofCatalog catalog).excess? levels) = none) :
    ∃ unfolding, catalog.Unfolds ids unfolding := by
  induction levels generalizing ids with
  | zero =>
    cases ids with
    | nil => exact ⟨.nil, .nil⟩
    | cons id rest => simp [Factory.excess?] at h
  | succ levels ih =>
    induction ids with
    | nil => exact ⟨.nil, .nil⟩
    | cons id rest ihRest =>
      obtain ⟨hid, hrest⟩ : (Factory.ofCatalog catalog).excess? (levels + 1) id = none ∧
          rest.findSome? ((Factory.ofCatalog catalog).excess? (levels + 1)) = none := by
        rw [List.findSome?_cons] at h
        split at h
        next => cases h
        next hnone => exact ⟨hnone, h⟩
      obtain ⟨unfolding, hunfolds⟩ := ihRest hrest
      cases hfound : catalog.find? id with
      | none => exact ⟨unfolding, .skip hfound hunfolds⟩
      | some template =>
        have hknown : (Factory.ofCatalog catalog).knows id = true := by
          simp [knows_ofCatalog, contains, hfound]
        rw [Factory.excess?, if_pos hknown, parts_ofCatalog hfound] at hid
        obtain ⟨parts, hbelow⟩ := ih hid
        exact ⟨_, .make hfound hbelow hunfolds⟩

end Catalog

/-! ## Keys in order -/

namespace Registry

variable {registry : Registry} {start : Nat} {handle : Handle} {key : Key}

/-- Who comes in takes no key away. -/
theorem find?_listing_of_some (cards : List Card) (h : registry.find? key = some handle) :
    (registry.listing start cards).find? key = some handle := by
  induction cards generalizing registry start with
  | nil => exact h
  | cons card rest ih =>
    rw [listing]
    apply ih
    have hfree : registry.find? (Engine.keyFor registry card) = none :=
      isFree_iff.1 (isFree_numberFor registry card)
    have hne : key ≠ Engine.keyFor registry card := by
      rintro rfl
      rw [hfree] at h
      cases h
    rw [find?_insert, if_neg hne]
    exact h

/-- All keys belong to those who were there before or came in. -/
theorem index_lt_of_find?_listing {cards : List Card}
    (hbefore : ∀ key handle, registry.find? key = some handle → handle.index < start)
    (h : (registry.listing start cards).find? key = some handle) :
    handle.index < start + cards.length := by
  induction cards generalizing registry start with
  | nil => exact hbefore key handle h
  | cons card rest ih =>
    have hnext : ∀ key handle,
        (registry.insert (Engine.keyFor registry card) ⟨start⟩).find? key = some handle →
          handle.index < start + 1 := by
      intro key handle hfound
      rw [find?_insert] at hfound
      split at hfound
      · cases hfound
        exact Nat.lt_succ_self start
      · exact Nat.lt_succ_of_lt (hbefore key handle hfound)
    have hless := ih hnext h
    rw [List.length_cons]
    omega

end Registry

namespace Engine

variable {engine middle after : Engine} {cards : List Card} {events : List Raised} {card : Card}
  {handle : Handle} {settle : EngineM Unit}

/-- The number that a card gets is free at its turn, and each smaller one belongs to a card that was
there before or came in earlier. -/
theorem Grown.numbered (h : Grown engine cards events after) (hagrees : engine.Agrees)
    {place : Nat} (hcard : cards[place]? = some card) (hfresh : card.index = none) :
    ∃ number, after.registry.keyOf? ⟨engine.forest.size + place⟩ = some ⟨card.id, number⟩ ∧
      ∀ smaller < number, ∃ earlier, after.registry.find? ⟨card.id, smaller⟩ = some earlier ∧
        earlier.index < engine.forest.size + place := by
  let turn := engine.registry.listing engine.forest.size (cards.take place)
  obtain ⟨hplace, -⟩ := List.getElem?_eq_some_iff.1 hcard
  have hlength : (cards.take place).length = place := by
    rw [List.length_take]
    omega
  have hbefore : ∀ key handle, engine.registry.find? key = some handle →
      handle.index < engine.forest.size := by
    intro key handle hfound
    obtain ⟨found, hget, -⟩ := hagrees.named handle key ((hagrees.consistent handle key).2 hfound)
    exact Forest.contains_iff_index_lt.1 (Forest.contains_iff.2 ⟨found, hget⟩)
  have hafter : after.registry =
      turn.listing (engine.forest.size + place) (cards.drop place) := by
    have hsplit := Registry.listing_append engine.registry engine.forest.size (cards.take place)
      (cards.drop place)
    rw [List.take_append_drop, hlength] at hsplit
    rw [h.registry, hsplit]
  refine ⟨numberFor turn card, ?_, fun smaller hless => ?_⟩
  · rw [h.registry, Registry.keyOf?_listing hcard]
    rfl
  · obtain ⟨-, hused⟩ := (numbered_numberFor turn card).smallest
      fun index hindex => by simp [hfresh] at hindex
    obtain ⟨earlier, hearlier⟩ := Registry.isFree_eq_false_iff.1 (hused smaller hless)
    refine ⟨earlier, ?_, ?_⟩
    · rw [hafter]
      exact Registry.find?_listing_of_some _ hearlier
    · have hindex := Registry.index_lt_of_find?_listing hbefore hearlier
      rw [hlength] at hindex
      exact hindex

/-- A fresh card that comes in stands by itself. -/
theorem get?_addCard_of_isFresh (hagrees : engine.Agrees) (hfresh : card.IsFresh) :
    (engine.addCard card).forest.get? engine.forest.next =
      some (card.assembled (numberFor engine.registry card) none []) := by
  have hinserted : { engine with forest := engine.forest.insert card }.forest.get?
      engine.forest.next = some card := by
    rw [Forest.get?_insert, if_pos rfl]
  have hnew : { engine with forest := engine.forest.insert card }.isRegistered
      engine.forest.next = false :=
    isRegistered_eq_false_iff.2 hagrees.keyOf?_next
  unfold addCard
  rw [get?_register hnew hinserted, if_pos rfl]
  obtain ⟨-, hchildren, hintrinsic, howner, hlisteners⟩ := hfresh
  unfold Card.subscribe Card.assembled
  simp only [hchildren, hintrinsic, howner, hlisteners]
  rfl

/-! ## Putting a card together -/

/-- What comes of a row of parts for a card that is being put together: their cards come in, the
card has the row as further children, the row stands below it, and all other cards stay as they
were. -/
structure Fits (engine : Engine) (cards : List Card) (events : List Raised) (middle : Engine)
    (handle : Handle) (whole : List Handle → Card) (done : List Handle) (unfolding : Unfolding)
    (after : Engine) : Prop where
  grown : Grown engine (cards ++ unfolding.cards)
    (events ++ unfolding.joins handle middle.forest.size) after
  whole : after.forest.get? handle = some (whole (done ++ unfolding.row middle.forest.size))
  stands : unfolding.StandsIn after.forest (some handle) middle.forest.size
  kept : ∀ other, other ≠ handle → middle.forest.contains other = true →
    after.forest.get? other = middle.forest.get? other

/-- If a card with a template is made, it is the next one to come, and its parts were made and joined
after it came in. -/
theorem start_assemble_eq_ok {catalog : Catalog} {id : String} {template : Template}
    {levels : Nat} {made : Option Handle} (hmaker : engine.maker = .ofCatalog catalog)
    (hfound : catalog.find? id = some template)
    (h : (assemble settle levels id).start engine = some (.ok made, after)) :
    made = some engine.forest.next ∧ ∃ below,
      (template.parts.forM (addPart settle below engine.forest.next)).start
        (engine.addCard (.ofTemplate template)) = some (.ok (), after) := by
  have hmake : engine.maker.make? id = some (.ofTemplate template) := by
    simp [hmaker, Factory.ofCatalog, hfound]
  have hparts : engine.maker.parts id = template.parts := by
    rw [hmaker, Catalog.parts_ofCatalog hfound]
  cases levels with
  | zero => cases h
  | succ levels =>
    have hway : (assemble settle (levels + 1) id).start engine =
        ((fun _ => some engine.forest.next) <$>
          template.parts.forM (addPart settle levels engine.forest.next)).start
            (engine.addCard (.ofTemplate template)) := by
      rw [start_assemble, hmake, hparts]
    rw [hway, start_map] at h
    obtain ⟨⟨outcome, complete⟩, hstart, heq⟩ := Option.map_eq_some_iff.1 h
    cases outcome with
    | error error => cases heq
    | ok value =>
      cases heq
      exact ⟨rfl, levels, hstart⟩

/-- Where a part without a template is listed, nothing is made or joined. -/
theorem start_addPart_succ_of_unknown {catalog : Catalog} {id : String}
    (hmaker : engine.maker = .ofCatalog catalog) (hunknown : catalog.find? id = none)
    (settle : EngineM Unit) (levels : Nat) (handle : Handle) :
    (addPart settle (levels + 1) handle id).start engine = some (.ok (), engine) := by
  have hmake : engine.maker.make? id = none := by
    simp [hmaker, Factory.ofCatalog, hunknown]
  unfold addPart
  rw [start_bind, start_assemble, hmake]
  rfl

theorem start_addPart_of_unknown {catalog : Catalog} {id : String} {levels : Nat}
    (hmaker : engine.maker = .ofCatalog catalog) (hunknown : catalog.find? id = none)
    (h : (addPart settle levels handle id).start engine = some (.ok (), after)) :
    after = engine := by
  cases levels with
  | zero => cases h
  | succ levels =>
    rw [start_addPart_succ_of_unknown hmaker hunknown] at h
    cases h
    rfl

/-- A part that was put together and joined comes before the parts that are joined after it. -/
theorem Fits.cons {part : Card} {number partNumber : Nat} {done : List Handle}
    {built joined : Engine} {parts rest : Unfolding}
    (hcard : middle.forest.get? handle = some (card.assembled number none done))
    (hbelow : Fits middle [part] [] (middle.addCard part) middle.forest.next
      (part.assembled partNumber none) [] parts built)
    (hsize : (middle.addCard part).forest.size = middle.forest.size + 1)
    (hlookup : ∀ other, joined.forest.get? other =
      if other = middle.forest.next then
        (built.forest.get? middle.forest.next).map (·.withOwner (some handle))
      else if other = handle then
        (middle.forest.get? handle).map (·.withChild middle.forest.next true)
      else built.forest.get? other)
    (hjoinedSize : joined.forest.size = middle.forest.size + 1 + parts.cards.length)
    (hrest : Fits engine (cards ++ ([part] ++ parts.cards))
      (events ++ ([] ++ parts.joins middle.forest.next (middle.addCard part).forest.size ++
        [⟨middle.forest.next, .added handle⟩])) joined handle (card.assembled number none)
      (done ++ [middle.forest.next]) rest after) :
    Fits engine cards events middle handle (card.assembled number none) done
      (.cons part parts rest) after := by
  obtain ⟨hgrown, hwhole, hstands, -⟩ := hbelow
  obtain ⟨hall, hfinal, hothers, hkept⟩ := hrest
  rw [hsize] at hwhole hstands hall
  rw [hjoinedSize] at hall hfinal hothers
  have hknown : middle.forest.contains handle = true := Forest.contains_iff.2 ⟨_, hcard⟩
  have hless : handle.index < middle.forest.size := Forest.contains_iff_index_lt.1 hknown
  -- What came in below the part, and the part itself, is not touched by the parts after it.
  have hlater : ∀ index, middle.forest.size ≤ index → index < joined.forest.size →
      after.forest.get? ⟨index⟩ = joined.forest.get? ⟨index⟩ := by
    intro index hge hindex
    apply hkept
    · rintro rfl
      exact absurd hless (Nat.not_lt_of_le hge)
    · exact Forest.contains_iff_index_lt.2 hindex
  refine ⟨?_, ?_, ⟨⟨partNumber, ?_⟩, ?_, hothers⟩, fun other hother hold => ?_⟩
  · simpa [Unfolding.cards, Unfolding.joins, Forest.next] using hall
  · simpa [Unfolding.row, Forest.next] using hfinal
  · rw [hlater _ (Nat.le_refl _) (by omega)]
    show joined.forest.get? middle.forest.next = _
    rw [hlookup, if_pos rfl, hwhole, Option.map_some, Card.withOwner_assembled, List.nil_append]
  · apply hstands.congr
    intro index hge hindex
    have hnePart : (⟨index⟩ : Handle) ≠ middle.forest.next := by
      intro heq
      have hsame : index = middle.forest.size := congrArg Handle.index heq
      omega
    have hneWhole : (⟨index⟩ : Handle) ≠ handle := by
      rintro rfl
      have hbefore : index < middle.forest.size := hless
      omega
    rw [hlater index (by omega) (by omega), hlookup, if_neg hnePart, if_neg hneWhole]
  · have hcontains : joined.forest.contains other = true := by
      have hindex : other.index < middle.forest.size := Forest.contains_iff_index_lt.1 hold
      apply Forest.contains_iff_index_lt.2
      omega
    rw [hkept other hother hcontains, hlookup, if_neg (Forest.ne_next_of_contains hold),
      if_neg hother, hgrown.kept other hold]

/-- The parts that are listed are made and joined, one after the other, each of them once its own
parts were. -/
theorem fits_of_unfolds {catalog : Catalog} {ids : List String} {unfolding : Unfolding}
    (hunfolds : catalog.Unfolds ids unfolding) {levels number : Nat} {done : List Handle}
    (hmaker : engine.maker = .ofCatalog catalog) (hquiet : Quiet engine settle)
    (h : Grown engine cards events middle) (hnew : engine.forest.contains handle = false)
    (hcard : middle.forest.get? handle = some (card.assembled number none done))
    (hstart : (ids.forM (addPart settle levels handle)).start middle = some (.ok (), after)) :
    Fits engine cards events middle handle (card.assembled number none) done unfolding after := by
  induction hunfolds generalizing engine middle after cards events handle card levels number
    done with
  | nil =>
    obtain rfl : middle = after := by simpa [List.forM] using hstart
    refine ⟨?_, ?_, trivial, fun _ _ _ => rfl⟩
    · simpa [Unfolding.cards, Unfolding.joins] using h
    · simpa [Unfolding.row] using hcard
  | @skip id rest unfolding hunknown _ ih =>
    obtain ⟨⟨⟩, here, hpart, hrest⟩ := exists_of_start_bind_eq_ok hstart
    obtain rfl := start_addPart_of_unknown (h.maker_eq.trans hmaker) hunknown hpart
    exact ih hmaker hquiet h hnew hcard hrest
  | @make id rest template parts unfolding hfound _ _ ihBelow ihRest =>
    obtain ⟨⟨⟩, here, hpart, hrest⟩ := exists_of_start_bind_eq_ok hstart
    have hmiddleMaker : middle.maker = .ofCatalog catalog := h.maker_eq.trans hmaker
    have hmake : middle.maker.make? id = some (.ofTemplate template) := by
      simp [hmiddleMaker, Factory.ofCatalog, hfound]
    -- The card of the part comes in by itself, and then its own parts are joined to it.
    obtain ⟨made, built, hbuilt, -⟩ := exists_of_start_bind_eq_ok hpart
    obtain ⟨rfl, below, hparts⟩ := start_assemble_eq_ok hmiddleMaker hfound hbuilt
    have hbelow := ihBelow hmiddleMaker (h.quiet hquiet) (grown_addCard h.arises hmake)
      (Forest.contains_next middle.forest)
      (get?_addCard_of_isFresh h.arises.listed.agrees (Card.isFresh_ofTemplate template)) hparts
    obtain ⟨joined, hjoined, hgrownJoined, hlookup⟩ := h.addPart hquiet hnew ⟨_, hcard, rfl⟩ hbuilt
      hbelow.grown ⟨_, hbelow.whole, rfl⟩
    obtain rfl : joined = here := by simpa using hjoined.symm.trans hpart
    have hrow : joined.forest.get? handle =
        some (card.assembled number none (done ++ [middle.forest.next])) := by
      have hne : handle ≠ middle.forest.next :=
        Forest.ne_next_of_contains (Forest.contains_iff.2 ⟨_, hcard⟩)
      rw [hlookup, if_neg hne, if_pos rfl, hcard, Option.map_some, Card.withChild_assembled]
    have hjoinedSize : joined.forest.size = middle.forest.size + 1 + parts.cards.length := by
      rw [hgrownJoined.size, h.size]
      simp only [List.length_append, List.length_cons, List.length_nil]
      omega
    exact .cons hcard hbelow (grown_addCard h.arises hmake).size hlookup hjoinedSize
      (ihRest hmaker hquiet hgrownJoined hnew hrow hrest)

/-! ## Making a card -/

/-- A card was made with all its parts: they stand in the forest from the first free place on, the
card itself without an owner; each has the smallest number that was free for its id at its turn,
since all smaller ones belong to cards from before or to cards that came in earlier; what was there
before is as it was; and the only events are those that join the parts, each of them after those of
its own parts. -/
structure Builds (engine : Engine) (card : Card) (parts : Unfolding) (after : Engine) : Prop where
  size : after.forest.size = engine.forest.size + (Unfolding.cons card parts .nil).cards.length
  stands : (Unfolding.cons card parts .nil).StandsIn after.forest none engine.forest.size
  numbered : ∀ place made, (Unfolding.cons card parts .nil).cards[place]? = some made →
    ∃ number, after.registry.keyOf? ⟨engine.forest.size + place⟩ = some ⟨made.id, number⟩ ∧
      after.registry.find? ⟨made.id, number⟩ = some ⟨engine.forest.size + place⟩ ∧
      (after.forest.get? ⟨engine.forest.size + place⟩).bind (·.index) = some number ∧
      ∀ smaller < number, ∃ earlier, after.registry.find? ⟨made.id, smaller⟩ = some earlier ∧
        earlier.index < engine.forest.size + place
  cards : ∀ handle, engine.forest.contains handle = true →
    after.forest.get? handle = engine.forest.get? handle
  keys : ∀ handle, engine.forest.contains handle = true →
    after.registry.keyOf? handle = engine.registry.keyOf? handle
  entries : ∀ key handle, engine.registry.find? key = some handle →
    after.registry.find? key = some handle
  outbox : after.forest.outbox = []
  queue : after.queue = engine.queue ++
    if engine.depth = 0 then parts.joins engine.forest.next (engine.forest.size + 1) else []
  deferred : after.deferred = engine.deferred ++
    if engine.depth = 0 then [] else parts.joins engine.forest.next (engine.forest.size + 1)
  rest : after = { engine with
    forest := after.forest, registry := after.registry, queue := after.queue,
    deferred := after.deferred, journal := after.journal }

/-- A card to which all its parts are joined is built. -/
theorem Fits.builds {parts : Unfolding} {number : Nat} (h : engine.Arises) (hfresh : card.IsFresh)
    (hparts : ∀ part ∈ parts.cards, part.IsFresh)
    (hsize : middle.forest.size = engine.forest.size + 1)
    (hfits : Fits engine [card] [] middle engine.forest.next (card.assembled number none) [] parts
      after) :
    Builds engine card parts after := by
  obtain ⟨hgrown, hwhole, hstands, -⟩ := hfits
  rw [hsize] at hgrown hwhole hstands
  have hcards : [card] ++ parts.cards = (Unfolding.cons card parts .nil).cards := by
    simp [Unfolding.cards]
  rw [List.nil_append, hcards] at hgrown
  have hagrees := hgrown.arises.listed.agrees
  refine ⟨hgrown.size, ⟨⟨number, hwhole⟩, hstands, trivial⟩, fun place made hmade => ?_,
    hgrown.kept, fun handle hknown => ?_, fun key handle hfound => ?_, hgrown.arises.outbox,
    hgrown.queue, hgrown.deferred, hgrown.rest⟩
  · have hindex : made.index = none := by
      have hmem := List.mem_of_getElem? hmade
      rw [← hcards, List.singleton_append, List.mem_cons] at hmem
      rcases hmem with rfl | hmem
      · exact hfresh.index
      · exact (hparts made hmem).index
    obtain ⟨given, hkey, hsmaller⟩ := hgrown.numbered h.listed.agrees hmade hindex
    obtain ⟨later, hlater, -, hnumber⟩ := hagrees.named _ _ hkey
    refine ⟨given, hkey, (hagrees.consistent _ _).1 hkey, ?_, hsmaller⟩
    rw [hlater]
    exact hnumber
  · rw [hgrown.registry]
    exact Registry.keyOf?_listing_of_lt _ (Forest.contains_iff_index_lt.1 hknown)
  · rw [hgrown.registry]
    exact Registry.find?_listing_of_some _ hfound

/-- To make the card of a template is to build what the template stands for, as long as nothing is
pumped. For an id without a template nothing is made and nothing changes. If a card is made, it is
the next one to come; its parts stand below it as the catalog lists them, and theirs below them, all
of them intrinsic; and no other card, key or setting is touched. -/
theorem createCard_builds_what_the_template_stands_for {catalog : Catalog} (h : engine.Arises)
    (hfactory : engine.factory = some (.ofCatalog catalog)) (hquiet : Quiet engine settle)
    (id : String) :
    (catalog.find? id = none → (createCard settle id).start engine = some (.ok none, engine)) ∧
      ∀ made after, (createCard settle id).start engine = some (.ok (some made), after) →
        made = engine.forest.next ∧
          ∃ card parts, catalog.Unfolds [id] (.cons card parts .nil) ∧
            Builds engine card parts after := by
  have hmaker : engine.maker = .ofCatalog catalog := by
    unfold maker
    rw [hfactory]
    rfl
  refine ⟨fun hunknown => ?_, fun made after hstart => ?_⟩
  · have hmake : engine.maker.make? id = none := by
      simp [hmaker, Factory.ofCatalog, hunknown]
    unfold createCard
    rw [start_assemble, hmake]
  · obtain ⟨expanded, hexpanded, -⟩ := expands settle (partLimit + 1) id engine h hquiet
    obtain ⟨hanswer, rfl⟩ : engine.maker.answer engine.forest.next (partLimit + 1) id =
        .ok (some made) ∧ expanded = after := by
      simpa using hexpanded.symm.trans hstart
    obtain ⟨rfl, hknown, hexcess⟩ := Factory.answer_eq_some hanswer
    rw [hmaker] at hexcess
    -- Parts nest so deep and not deeper, so the template stands for something.
    obtain ⟨unfolding, hunfolds⟩ : ∃ unfolding, catalog.Unfolds [id] unfolding := by
      apply Catalog.exists_unfolds
      rw [List.findSome?_cons, hexcess]
      rfl
    refine ⟨rfl, ?_⟩
    cases hunfolds with
    | skip hunknown _ => simp [Factory.ofCatalog, hunknown, Factory.knows, hmaker] at hknown
    | @make _ _ template parts _ hfound hbelow hrest =>
      cases hrest
      refine ⟨.ofTemplate template, parts, .make hfound hbelow .nil, ?_⟩
      have hmake : engine.maker.make? id = some (.ofTemplate template) := by
        simp [hmaker, Factory.ofCatalog, hfound]
      have hfresh := Card.isFresh_ofTemplate template
      have hadded := grown_addCard h hmake
      obtain ⟨-, below, hparts⟩ := start_assemble_eq_ok hmaker hfound hstart
      exact Fits.builds h hfresh hbelow.isFresh hadded.size
        (fits_of_unfolds hbelow hmaker hquiet hadded (Forest.contains_next engine.forest)
          (get?_addCard_of_isFresh h.listed.agrees hfresh) hparts)

/-- Lanterns, made of candles with wicks and of a glass; there is no template for oil. -/
def lanterns : Catalog := .ofList [
  { id := "lantern", category := .item, parts := ["candle", "oil", "glass", "candle"] },
  { id := "candle", category := .item, parts := ["wick"] },
  { id := "wick", category := .item }, { id := "glass", category := .item }]

/-- An engine that makes lanterns and does not pump by itself. -/
def lanternShop : Engine := new { autoPump := false } (some (.ofCatalog lanterns))

/-- A lantern comes in before its candles, and each wick is joined before its candle is. -/
theorem wicks_are_joined_before_their_candles :
    (createCard (Engine.settle (invoker moving 0)) "oil").start lanternShop =
        some (.ok none, lanternShop) ∧
      ∃ after, (createCard (Engine.settle (invoker moving 0)) "lantern").start lanternShop =
          some (.ok (some ⟨0⟩), after) ∧
        after.forest.size = 6 ∧ after.forest.children ⟨0⟩ = [⟨1⟩, ⟨3⟩, ⟨4⟩] ∧
        after.queue = [⟨⟨2⟩, .added ⟨1⟩⟩, ⟨⟨1⟩, .added ⟨0⟩⟩, ⟨⟨3⟩, .added ⟨0⟩⟩,
          ⟨⟨5⟩, .added ⟨4⟩⟩, ⟨⟨4⟩, .added ⟨0⟩⟩] := by
  have harises : lanternShop.Arises :=
    (reachable_new _ (Factory.makesFresh_ofCatalog lanterns)).arises
  have hquiet : Quiet lanternShop (Engine.settle (invoker moving 0)) := .inr ⟨.inl rfl, _, rfl⟩
  obtain ⟨hunknown, -⟩ :=
    createCard_builds_what_the_template_stands_for harises rfl hquiet "oil"
  obtain ⟨-, hbuilds⟩ :=
    createCard_builds_what_the_template_stands_for harises rfl hquiet "lantern"
  obtain ⟨after, hstart, -⟩ := expands (Engine.settle (invoker moving 0)) (partLimit + 1) "lantern"
    lanternShop harises hquiet
  obtain ⟨-, card, parts, hunfolds, hbuilt⟩ := hbuilds ⟨0⟩ after hstart
  -- The oil is passed over, and the candle that is listed twice is made twice.
  have hlantern : lanterns.Unfolds ["lantern"] _ :=
    .make rfl (.make rfl (.make rfl .nil .nil) (.skip rfl (.make rfl .nil
      (.make rfl (.make rfl .nil .nil) .nil)))) .nil
  obtain ⟨rfl, rfl, -⟩ := Unfolding.cons.inj (hunfolds.unique hlantern)
  obtain ⟨⟨number, hcard⟩, -⟩ := hbuilt.stands
  exact ⟨hunknown rfl, after, hstart, hbuilt.size, Forest.children_of_get? hcard, hbuilt.queue⟩

end Engine

end CardRules
