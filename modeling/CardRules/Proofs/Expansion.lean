import CardRules.Proofs.Hearing
import CardRules.Proofs.Territory
import Mathlib.Data.Set.Basic

/-!
What making a card comes to, card by card and event by event, while nothing is pumped. The factory
decides which cards are made, in which order, and which of them are joined; and it decides where
that ends early, because parts nest too deep. Even then all that was made before stays: a creation
that fails is not undone, but it leaves new cards only.
-/

namespace CardRules

open EngineM

/-- A card as it was described, before anything was done with it. -/
def Card.plain (card : Card) : Card :=
  { card with index := none, children := [], intrinsic := ∅, owner := none, listeners := [] }

theorem Card.plain_of_isFresh {card : Card} (h : card.IsFresh) : card.plain = card := by
  obtain ⟨hindex, hchildren, hintrinsic, howner, hlisteners⟩ := h
  unfold plain
  rw [← hindex, ← hchildren, ← hintrinsic, ← howner, ← hlisteners]

/-! ## What the factory makes -/

namespace Factory

variable {factory : Factory} {levels : Nat} {id part : String}

/-- What parts contribute, one after the other, up to and including one that nests too deep. -/
def untilExcess {β : Type} (excess? : String → Option String) (contribution : String → List β) :
    List String → List β
  | [] => []
  | part :: rest =>
    contribution part ++ if (excess? part).isSome then [] else untilExcess excess? contribution rest

/-- The cards that are made for an id, in order: the card itself, and then those of its parts. -/
def made (factory : Factory) : Nat → String → List Card
  | 0, _ => []
  | levels + 1, id =>
    match factory.make? id with
    | none => []
    | some card =>
      card :: untilExcess (factory.excess? levels) (factory.made levels) (factory.parts id)

/-- The events of the parts of one card, given those inside each part: a part is joined to the card
once it is complete. -/
def joinedParts (factory : Factory) (levels : Nat) (joined : String → Nat → List Raised)
    (owner : Handle) : Nat → List String → List Raised
  | _, [] => []
  | next, part :: rest =>
    joined part next ++
      match factory.excess? levels part with
      | some _ => []
      | none =>
        (if factory.knows part then [⟨⟨next⟩, .added owner⟩] else []) ++
          joinedParts factory levels joined owner (next + (factory.made levels part).length) rest

/-- The events of the cards that are made for an id, the first of them at a place. -/
def joined (factory : Factory) : Nat → String → Nat → List Raised
  | 0, _, _ => []
  | levels + 1, id, next =>
    if factory.knows id then
      factory.joinedParts levels (factory.joined levels) ⟨next⟩ (next + 1) (factory.parts id)
    else []

/-- Where parts nest too deep there is a card for each level. -/
theorem le_length_made (h : factory.excess? levels id = some part) :
    levels ≤ (factory.made levels id).length := by
  induction levels generalizing id with
  | zero => exact Nat.zero_le _
  | succ levels ih =>
    unfold excess? at h
    split at h
    next hknown =>
      obtain ⟨card, hcard⟩ := Option.isSome_iff_exists.1 hknown
      have hparts : ∀ parts : List String, parts.findSome? (factory.excess? levels) = some part →
          levels ≤ (untilExcess (factory.excess? levels) (factory.made levels) parts).length := by
        intro parts hfound
        induction parts with
        | nil => simp at hfound
        | cons first rest ihParts =>
          unfold untilExcess
          cases hfirst : factory.excess? levels first with
          | some deep =>
            have hlength : levels ≤ (factory.made levels first).length :=
              ih (by simpa [hfirst] using hfound)
            simpa using hlength
          | none =>
            have hlength := ihParts (by simpa [hfirst] using hfound)
            rw [List.length_append]
            simpa using Nat.le_add_left_of_le hlength
      unfold made
      rw [hcard]
      exact Nat.succ_le_succ (hparts _ h)
    next => cases h

end Factory

/-! ## Registration in order -/

namespace Registry

variable {registry : Registry} {start : Nat} {handle : Handle}

/-- The registry after cards came in at the next places, one after the other. -/
def listing (registry : Registry) (start : Nat) : List Card → Registry
  | [] => registry
  | card :: rest =>
    (registry.insert (Engine.keyFor registry card) ⟨start⟩).listing (start + 1) rest

theorem listing_append (registry : Registry) (start : Nat) (cards others : List Card) :
    registry.listing start (cards ++ others) =
      (registry.listing start cards).listing (start + cards.length) others := by
  induction cards generalizing registry start with
  | nil => rfl
  | cons card rest ih =>
    rw [List.cons_append, listing, ih, List.length_cons, listing]
    congr 1
    omega

/-- Who was there before keeps its key. -/
theorem keyOf?_listing_of_lt (cards : List Card) (h : handle.index < start) :
    (registry.listing start cards).keyOf? handle = registry.keyOf? handle := by
  induction cards generalizing registry start with
  | nil => rfl
  | cons card rest ih =>
    rw [listing, ih (Nat.lt_succ_of_lt h), keyOf?_insert, if_neg]
    rintro rfl
    exact Nat.lt_irrefl _ h

/-- A card that comes in gets its key from the registry as it is at its turn. -/
theorem keyOf?_listing {place : Nat} {cards : List Card} {card : Card}
    (h : cards[place]? = some card) :
    (registry.listing start cards).keyOf? ⟨start + place⟩ =
      some (Engine.keyFor (registry.listing start (cards.take place)) card) := by
  induction cards generalizing registry start place with
  | nil => simp at h
  | cons first rest ih =>
    cases place with
    | zero =>
      obtain rfl : first = card := by simpa using h
      have hlater : (⟨start⟩ : Handle).index < start + 1 := Nat.lt_succ_self start
      rw [Nat.add_zero, listing, keyOf?_listing_of_lt rest hlater, keyOf?_insert, if_pos rfl]
      rfl
    | succ place =>
      have hrest : rest[place]? = some card := by simpa using h
      rw [List.take_succ_cons, listing, listing, ← ih hrest]
      congr 2
      omega

/-- Each new card has a key. -/
theorem contains_listing {place : Nat} {cards : List Card} (h : place < cards.length) :
    (registry.listing start cards).contains ⟨start + place⟩ = true := by
  rw [← Bool.not_eq_false, contains_eq_false_iff,
    keyOf?_listing (List.getElem?_eq_getElem h)]
  simp

end Registry

namespace Engine

variable {engine middle after last : Engine} {cards others : List Card}
  {events moreEvents : List Raised} {card : Card} {handle child : Handle} {settle : EngineM Unit}

theorem Reachable.arises (h : engine.Reachable) : engine.Arises :=
  h.keeps arises_stays fun _ _ hfresh => .new hfresh

/-! ## What comes in -/

/-- Cards came in, in order and at the next handles. Each of them is as it was described and is
registered with the smallest number that is free at its turn; events were taken on; and nothing else
changed but the journal. -/
structure Grown (engine : Engine) (cards : List Card) (events : List Raised) (after : Engine) :
    Prop where
  arises : after.Arises
  size : after.forest.size = engine.forest.size + cards.length
  kept : ∀ handle, engine.forest.contains handle = true →
    after.forest.get? handle = engine.forest.get? handle
  made : ∀ place card, cards[place]? = some card →
    ∃ later, after.forest.get? ⟨engine.forest.size + place⟩ = some later ∧ later.plain = card ∧
      later.listeners = [.scheduler]
  registry : after.registry = engine.registry.listing engine.forest.size cards
  queue : after.queue = engine.queue ++ if engine.depth = 0 then events else []
  deferred : after.deferred = engine.deferred ++ if engine.depth = 0 then [] else events
  rest : after = { engine with
    forest := after.forest, registry := after.registry, queue := after.queue,
    deferred := after.deferred, journal := after.journal }

theorem grown_nil (h : engine.Arises) : Grown engine [] [] engine where
  arises := h
  size := rfl
  kept _ _ := rfl
  made _ _ hcard := by cases hcard
  registry := rfl
  queue := by simp
  deferred := by simp
  rest := rfl

namespace Grown

theorem depth_eq (h : Grown engine cards events after) : after.depth = engine.depth := by
  rw [h.rest]

theorem maker_eq (h : Grown engine cards events after) : after.maker = engine.maker := by
  unfold maker
  rw [h.rest]

theorem contains_iff (h : Grown engine cards events after) :
    after.forest.contains handle = true ↔
      handle.index < engine.forest.size + cards.length := by
  rw [Forest.contains_iff_index_lt, h.size]

theorem contains (h : Grown engine cards events after)
    (hknown : engine.forest.contains handle = true) : after.forest.contains handle = true := by
  exact h.contains_iff.2 (Nat.lt_add_right _ (Forest.contains_iff_index_lt.1 hknown))

theorem trans (h : Grown engine cards events middle) (h' : Grown middle others moreEvents after) :
    Grown engine (cards ++ others) (events ++ moreEvents) after where
  arises := h'.arises
  size := by rw [h'.size, h.size, List.length_append, Nat.add_assoc]
  kept handle hknown := (h'.kept handle (h.contains hknown)).trans (h.kept handle hknown)
  made place card hcard := by
    rcases Nat.lt_or_ge place cards.length with hless | hge
    · rw [List.getElem?_append_left hless] at hcard
      obtain ⟨later, hlater, hplain⟩ := h.made place card hcard
      refine ⟨later, ?_, hplain⟩
      rw [h'.kept _ (Forest.contains_iff.2 ⟨later, hlater⟩), hlater]
    · rw [List.getElem?_append_right hge] at hcard
      obtain ⟨later, hlater, hplain⟩ := h'.made _ card hcard
      refine ⟨later, ?_, hplain⟩
      rw [← hlater, h.size]
      congr 2
      omega
  registry := by rw [h'.registry, h.registry, h.size, Registry.listing_append]
  queue := by
    rw [h'.queue, h.queue, h.depth_eq]
    split <;> simp
  deferred := by
    rw [h'.deferred, h.deferred, h.depth_eq]
    split <;> simp
  rest := by rw [h'.rest, h.rest]

/-- Cards that come in are new, and what was there stays. -/
theorem grows (h : Grown engine cards events after) :
    Forest.Grows { handle | engine.forest.contains handle = false } engine.forest after.forest where
  outside handle hout := h.kept handle (by simpa using hout)
  kept {handle card} hcard :=
    ⟨card, (h.kept handle (Forest.contains_iff.2 ⟨card, hcard⟩)).trans hcard, .refl card⟩

/-- A card that was not there before is one of those that came in. -/
theorem exists_made (h : Grown engine cards events after)
    (hnew : engine.forest.contains handle = false)
    (hknown : after.forest.contains handle = true) :
    ∃ place card, cards[place]? = some card ∧ handle = ⟨engine.forest.size + place⟩ := by
  obtain ⟨index⟩ := handle
  have hge : engine.forest.size ≤ index := by simpa [Forest.contains] using hnew
  have hless : index < engine.forest.size + cards.length := h.contains_iff.1 hknown
  have hplace : index - engine.forest.size < cards.length := by omega
  refine ⟨index - engine.forest.size, _, List.getElem?_eq_getElem hplace, ?_⟩
  rw [Nat.add_sub_cancel' hge]

end Grown

/-- The scheduler listens to a card just if it is registered. -/
theorem Agrees.isRegistered_of_listens (h : engine.Agrees)
    (hcard : engine.forest.get? handle = some card) (hlistens : card.listeners = [.scheduler]) :
    engine.isRegistered handle = true := by
  have hheard := h.heard handle card hcard
  rw [hlistens] at hheard
  by_contra hnot
  simp [hnot] at hheard

/-- A fresh card comes in. -/
theorem grown_addCard (h : engine.Arises) {id : String}
    (hmade : engine.maker.make? id = some card) :
    Grown engine [card] [] (engine.addCard card) := by
  have hfresh := h.listed.linked.isFresh_of_make? hmade
  have hfactory : ∃ factory, engine.factory = some factory ∧ factory.make? id = some card := by
    unfold maker at hmade
    cases hfactory : engine.factory with
    | none => simp [hfactory] at hmade
    | some factory => exact ⟨factory, rfl, by simpa [hfactory] using hmade⟩
  obtain ⟨factory, hfactory, hmakes⟩ := hfactory
  have hinserted : { engine with forest := engine.forest.insert card }.forest.get?
      engine.forest.next = some card := by
    rw [Forest.get?_insert, if_pos rfl]
  have hnew : { engine with forest := engine.forest.insert card }.isRegistered
      engine.forest.next = false :=
    isRegistered_eq_false_iff.2 h.listed.agrees.keyOf?_next
  have hadded := register_of_get? hnew hinserted
  have hschedule := sameSchedule_addCard engine card
  refine ⟨h.step (.change (.makeCard hfactory hmakes)), ?_, fun handle hknown => ?_,
    fun place found hfound => ?_, ?_, ?_, ?_, ?_⟩
  · unfold addCard
    rw [hadded]
    simp
  · exact (addCard_of_ne engine card (Forest.ne_next_of_contains hknown)).1
  · obtain ⟨rfl, rfl⟩ : place = 0 ∧ found = card := by
      cases place with
      | zero => exact ⟨rfl, by simpa using hfound.symm⟩
      | succ place => simp at hfound
    refine ⟨_, (get?_register hnew hinserted _).trans (if_pos rfl), ?_, ?_⟩
    · exact Card.plain_of_isFresh hfresh
    · simp [Card.subscribe, hfresh.listeners]
  · unfold addCard
    rw [hadded]
    rfl
  · simpa using hschedule.queue
  · simpa using hschedule.deferred
  · unfold addCard
    rw [hadded]

/-! ## Ways to settle without a pump -/

/-- A way to settle that does not pump: that of effects, and that of operations if the engine is not
set up to pump by itself or something is under way. -/
def Quiet (engine : Engine) (settle : EngineM Unit) : Prop :=
  settle = settleInside ∨
    ((engine.config.autoPump = false ∨ engine.isIdle = false) ∧
      ∃ invoke, settle = Engine.settle invoke)

theorem Quiet.congr (h : Quiet engine settle) (hconfig : after.config = engine.config)
    (hidle : after.isIdle = engine.isIdle) : Quiet after settle := by
  unfold Quiet
  rw [hconfig, hidle]
  exact h

/-- What is quiet hands out what was raised. -/
theorem Quiet.start_eq (h : Quiet engine settle) :
    settle.start engine = some (.ok (), engine.deliver) := by
  rcases h with rfl | ⟨hnone, invoke, rfl⟩
  · rfl
  · have hstill : (engine.deliver.config.autoPump && engine.deliver.isIdle) = false := by
      rw [config_deliver, isIdle_deliver, Bool.and_eq_false_iff]
      exact hnone
    rw [start_settle, hstill]
    by_cases hempty : engine.forest.outbox.isEmpty = true
    · rw [if_pos hempty, deliver_of_isEmpty hempty]
    · rw [if_neg hempty]
      rfl

theorem Grown.quiet (h : Grown engine cards events after) (hquiet : Quiet engine settle) :
    Quiet after settle := by
  apply hquiet.congr
  · rw [h.rest]
  · unfold isIdle
    rw [h.rest]

/-- An operation that hands events out and does not pump does nothing besides. -/
theorem HandsOut.ofQuiet {α : Type} {operation : EngineM Unit → EngineM α} {answer : α}
    (h : HandsOut engine operation events answer) (hquiet : Quiet engine settle) :
    ∃ delivered, delivered.Arises ∧ Delivers engine events delivered ∧
      (operation settleInside).start engine = some (.ok answer, delivered) ∧
      (operation settle).start engine = some (.ok answer, delivered) := by
  obtain ⟨delivered, harises, hdelivers, hinside, hfollow⟩ := h
  refine ⟨delivered, harises, hdelivers, hinside, ?_⟩
  rcases hquiet with rfl | ⟨hnone, invoke, rfl⟩
  · exact hinside
  · have hfollowUp : followUp invoke engine events = pure () := by
      unfold followUp
      rcases hnone with hmanual | hbusy
      · simp [hmanual]
      · simp [hbusy]
    rw [hfollow, hfollowUp]
    rfl

/-! ## Joining and assembling -/

/-- A card that came in is joined to another one. -/
theorem Grown.join (h : Grown engine cards events middle) (hquiet : Quiet engine settle)
    (howner : engine.forest.contains handle = false)
    (hchild : engine.forest.contains child = false) {forest : Forest}
    (hattach : middle.forest.attach handle child true = .ok forest) :
    ∃ after, (attach settle handle child true).start middle = some (.ok (), after) ∧
      Grown engine cards (events ++ [⟨child, .added handle⟩]) after ∧
      ∀ other, after.forest.get? other = forest.get? other := by
  have hhands : HandsOut middle (attach · handle child true) [⟨child, .added handle⟩] () := by
    refine (h.arises.attach handle child true).resolve_right ?_
    rintro ⟨error, hrefused, -⟩
    rw [start_attach, hattach] at hrefused
    cases hrefused
  obtain ⟨delivered, harises, hdelivers, hinside, hstart⟩ := hhands.ofQuiet (h.quiet hquiet)
  have hdelivered : delivered.forest = forest.emptied := by
    rw [start_attach, hattach] at hinside
    cases hinside
    exact forest_deliver _
  have hlookup : ∀ other, delivered.forest.get? other = forest.get? other := by
    intro other
    rw [hdelivered, Forest.get?_emptied]
  have hattached := Forest.get?_attach hattach
  -- The card that is joined came in, so the scheduler listens to it and takes the event on.
  have htaken : middle.takenOn [⟨child, .added handle⟩] = [⟨child, .added handle⟩] := by
    obtain ⟨-, ⟨card, hcard, -⟩, -⟩ := Forest.attach_eq_ok hattach
    obtain ⟨place, found, hfound, rfl⟩ :=
      h.exists_made hchild (Forest.contains_iff.2 ⟨card, hcard⟩)
    obtain ⟨later, hlater, -, hlistens⟩ := h.made place found hfound
    have hregistered := h.arises.listed.agrees.isRegistered_of_listens hlater hlistens
    simp [takenOn, hregistered]
  refine ⟨delivered, hstart, ⟨harises, ?_, fun other hknown => ?_, fun place card hcard => ?_, ?_,
    ?_, ?_, ?_⟩, hlookup⟩
  · rw [hdelivered, ← h.size, ← Forest.size_attach hattach]
    rfl
  · -- What was there before is neither the owner nor the child.
    have hneOwner : other ≠ handle := by
      rintro rfl
      rw [howner] at hknown
      cases hknown
    have hneChild : other ≠ child := by
      rintro rfl
      rw [hchild] at hknown
      cases hknown
    rw [hlookup, hattached, if_neg hneChild, if_neg hneOwner, h.kept other hknown]
  · obtain ⟨later, hlater, hplain, hlistens⟩ := h.made place card hcard
    rw [hlookup, hattached]
    split
    next heq =>
      rw [← heq, hlater]
      exact ⟨_, rfl, hplain, hlistens⟩
    next =>
      split
      next heq =>
        rw [← heq, hlater]
        exact ⟨_, rfl, hplain, hlistens⟩
      next => exact ⟨later, hlater, hplain, hlistens⟩
  · rw [hdelivers.rest, ← h.registry]
  · rw [hdelivers.queue, htaken, h.queue, h.depth_eq]
    split <;> simp
  · rw [hdelivers.deferred, htaken, h.deferred, h.depth_eq]
    split <;> simp
  · rw [hdelivers.rest, h.rest]

/-- A card in a forest that nobody owns. -/
def Unowned (engine : Engine) (handle : Handle) : Prop :=
  ∃ card, engine.forest.get? handle = some card ∧ card.owner = none

theorem Grown.unowned (h : Grown engine cards events after) (hunowned : engine.Unowned handle) :
    after.Unowned handle := by
  obtain ⟨card, hcard, howner⟩ := hunowned
  exact ⟨card, (h.kept handle (Forest.contains_iff.2 ⟨card, hcard⟩)).trans hcard, howner⟩

/-- A part that was made is joined to the card that is being put together. The part came in after
that card, so it cannot lie above it. -/
theorem Grown.addPart {built : Engine} {levels : Nat} {part : String}
    (h : Grown engine cards events middle) (hquiet : Quiet engine settle)
    (hnew : engine.forest.contains handle = false) (hunowned : middle.Unowned handle)
    (hmade : (assemble settle levels part).start middle =
      some (.ok (some middle.forest.next), built))
    (hgrown : Grown middle others moreEvents built) (hpart : built.Unowned middle.forest.next) :
    ∃ after, (addPart settle levels handle part).start middle = some (.ok (), after) ∧
      Grown engine (cards ++ others)
        (events ++ (moreEvents ++ [⟨middle.forest.next, .added handle⟩])) after ∧
      ∀ other, after.forest.get? other =
        if other = middle.forest.next then
          (built.forest.get? middle.forest.next).map (·.withOwner (some handle))
        else if other = handle then
          (middle.forest.get? handle).map (·.withChild middle.forest.next true)
        else built.forest.get? other := by
  obtain ⟨found, hfound, howner⟩ := hpart
  obtain ⟨card, hcard, -⟩ := hunowned
  have hnewPart : engine.forest.contains middle.forest.next = false := by
    rw [← Bool.not_eq_true]
    intro hold
    have hcontained := h.contains hold
    rw [Forest.contains_next] at hcontained
    cases hcontained
  obtain ⟨forest, hattach⟩ := Forest.exists_attach hgrown.grows h.arises.listed.linked.sound
    hgrown.arises.listed.linked.sound (Forest.contains_iff.2 ⟨card, hcard⟩)
    (Forest.contains_next middle.forest) hfound howner true
  obtain ⟨joined, hjoin, hgrownJoined, hlookup⟩ :=
    (h.trans hgrown).join hquiet hnew hnewPart hattach
  refine ⟨joined, ?_, ?_, fun other => ?_⟩
  · unfold Engine.addPart
    rw [start_bind, hmade]
    exact hjoin
  · rw [← List.append_assoc]
    exact hgrownJoined
  · rw [hlookup, Forest.get?_attach hattach,
      hgrown.kept handle (Forest.contains_iff.2 ⟨card, hcard⟩)]

/-- Assembling makes the cards that the factory says and joins them, as far as it gets. -/
def Expands (settle : EngineM Unit) (levels : Nat) : Prop :=
  ∀ (id : String) (engine : Engine), engine.Arises → Quiet engine settle →
    ∃ after, (assemble settle levels id).start engine =
        some (engine.maker.answer engine.forest.next levels id, after) ∧
      Grown engine (engine.maker.made levels id)
        (engine.maker.joined levels id engine.forest.size) after ∧
      ∀ made, engine.maker.answer engine.forest.next levels id = .ok (some made) →
        after.Unowned made

/-- One part more for a card that is being put together. -/
theorem Expands.addPart {levels : Nat} (hexpands : Expands settle levels)
    (h : Grown engine cards events middle) (hquiet : Quiet engine settle)
    (hnew : engine.forest.contains handle = false) (hunowned : middle.Unowned handle)
    (part : String) :
    ∃ after, (addPart settle levels handle part).start middle =
        some (Factory.verdict (engine.maker.excess? levels part) (), after) ∧
      Grown engine (cards ++ engine.maker.made levels part)
        (events ++ (engine.maker.joined levels part middle.forest.size ++
          if (engine.maker.excess? levels part).isNone ∧ engine.maker.knows part = true then
            [⟨middle.forest.next, .added handle⟩] else [])) after ∧
      after.Unowned handle := by
  obtain ⟨after, hstart, hgrown, hmade⟩ := hexpands part middle h.arises (h.quiet hquiet)
  rw [h.maker_eq] at hstart hgrown hmade
  have hboth := h.trans hgrown
  cases hexcess : engine.maker.excess? levels part with
  | some deep =>
    refine ⟨after, ?_, ?_, hgrown.unowned hunowned⟩
    · unfold Engine.addPart
      rw [start_bind, hstart]
      simp [Factory.answer, Factory.verdict, hexcess]
    · simpa using hboth
  | none =>
    by_cases hknown : engine.maker.knows part = true
    · have hanswer : engine.maker.answer middle.forest.next levels part =
          .ok (some middle.forest.next) := by
        simp [Factory.answer, Factory.verdict, hexcess, hknown]
      rw [hanswer] at hstart
      obtain ⟨joined, hjoin, hgrownJoined, hlookup⟩ :=
        h.addPart hquiet hnew hunowned hstart hgrown (hmade _ hanswer)
      refine ⟨joined, hjoin, ?_, ?_⟩
      · simpa [hknown] using hgrownJoined
      · obtain ⟨card, hcard, hcardOwner⟩ := hunowned
        have hne : handle ≠ middle.forest.next :=
          Forest.ne_next_of_contains (Forest.contains_iff.2 ⟨card, hcard⟩)
        refine ⟨card.withChild middle.forest.next true, ?_, hcardOwner⟩
        rw [hlookup, if_neg hne, if_pos rfl, hcard]
        rfl
    · refine ⟨after, ?_, ?_, hgrown.unowned hunowned⟩
      · unfold Engine.addPart
        rw [start_bind, hstart]
        simp [Factory.answer, Factory.verdict, hexcess, hknown]
      · simpa [hknown] using hboth

theorem Expands.forM_addPart {levels : Nat} (hexpands : Expands settle levels)
    (h : Grown engine cards events middle) (hquiet : Quiet engine settle)
    (hnew : engine.forest.contains handle = false) (hunowned : middle.Unowned handle)
    (parts : List String) :
    ∃ after, (parts.forM (Engine.addPart settle levels handle)).start middle =
        some (Factory.verdict (parts.findSome? (engine.maker.excess? levels)) (), after) ∧
      Grown engine
        (cards ++ Factory.untilExcess (engine.maker.excess? levels) (engine.maker.made levels)
          parts)
        (events ++ engine.maker.joinedParts levels (engine.maker.joined levels) handle
          middle.forest.size parts) after ∧
      after.Unowned handle := by
  induction parts generalizing middle cards events with
  | nil =>
    exact ⟨middle, rfl, by simpa [Factory.untilExcess, Factory.joinedParts] using h, hunowned⟩
  | cons part rest ih =>
    obtain ⟨here, hstart, hgrown, hhere⟩ := hexpands.addPart h hquiet hnew hunowned part
    unfold List.forM
    rw [start_bind, hstart]
    cases hexcess : engine.maker.excess? levels part with
    | some deep =>
      refine ⟨here, ?_, ?_, hhere⟩
      · rw [List.findSome?_cons, hexcess]
        rfl
      · simpa [Factory.untilExcess, Factory.joinedParts, hexcess] using hgrown
    | none =>
      obtain ⟨after, hrest, hafter, hdone⟩ := ih hgrown hhere
      have hsize : here.forest.size =
          middle.forest.size + (engine.maker.made levels part).length := by
        rw [hgrown.size, h.size, List.length_append, Nat.add_assoc]
      refine ⟨after, ?_, ?_, hdone⟩
      · rw [List.findSome?_cons, hexcess]
        exact hrest
      · rw [hsize] at hafter
        simpa [Factory.untilExcess, Factory.joinedParts, hexcess, Forest.next] using hafter

theorem expands (settle : EngineM Unit) (levels : Nat) : Expands settle levels := by
  induction levels with
  | zero =>
    intro id engine h _
    refine ⟨engine, rfl, grown_nil h, fun made hmade => ?_⟩
    cases hmade
  | succ levels ih =>
    intro id engine h hquiet
    rw [start_assemble]
    cases hmake : engine.maker.make? id with
    | none =>
      have hknown : engine.maker.knows id = false := by simp [Factory.knows, hmake]
      have hexcess : engine.maker.excess? (levels + 1) id = none := by
        simp [Factory.excess?, hknown]
      refine ⟨engine, ?_, ?_, fun made hanswer => ?_⟩
      · simp [Factory.answer, Factory.verdict, hexcess, hknown]
      · simpa [Factory.made, Factory.joined, hmake, hknown] using grown_nil h
      · simp [Factory.answer, Factory.verdict, hexcess, hknown] at hanswer
    | some card =>
      have hknown : engine.maker.knows id = true := by simp [Factory.knows, hmake]
      have hexcess : engine.maker.excess? (levels + 1) id =
          (engine.maker.parts id).findSome? (engine.maker.excess? levels) := by
        rw [Factory.excess?, if_pos hknown]
      have hadded := grown_addCard h hmake
      have hfresh := h.listed.linked.isFresh_of_make? hmake
      have hunowned : (engine.addCard card).Unowned engine.forest.next := by
        obtain ⟨later, hlater, -, hlinks⟩ := get?_addCard_next engine card
        obtain ⟨howner, -⟩ : later.owner = card.owner ∧ _ := by
          simpa [Card.links] using hlinks
        exact ⟨later, hlater, howner.trans hfresh.owner⟩
      obtain ⟨after, hstart, hgrown, hafter⟩ := ih.forM_addPart hadded hquiet
        (Forest.contains_next engine.forest) hunowned (engine.maker.parts id)
      refine ⟨after, ?_, ?_, fun made hanswer => ?_⟩
      · simp only [start_map, hstart, Factory.answer, hexcess, hknown, if_true]
        unfold Factory.verdict
        split <;> rfl
      · rw [hadded.size] at hgrown
        simpa [Factory.made, Factory.joined, hmake, hknown, Forest.next] using hgrown
      · obtain ⟨rfl, -, -⟩ := Factory.answer_eq_some hanswer
        exact hafter

/-! ## Creations that fail -/

/-- A creation that fails is not undone, and all it leaves behind is new. The cards from before are
as they were, and so are their keys; the events that waited still do, with those of the new cards
after them; and rules, chances, listeners and settings are the same. What is new are the cards that
were made up to the part that nests too deep, more than parts may nest: each is as its template says
and is registered, so that ticks reach it. -/
theorem failed_creation_leaves_new_cards {factory : Factory} {id : String} {error : Error}
    (h : engine.Arises) (hfactory : engine.factory = some factory) (hquiet : Quiet engine settle)
    (hfailed : (createCard settle id).start engine = some (.error error, after)) :
    (∃ part, error = .invalidTemplate (.partsTooDeep part partLimit)) ∧
      partLimit < (factory.made (partLimit + 1) id).length ∧
      Grown engine (factory.made (partLimit + 1) id)
        (factory.joined (partLimit + 1) id engine.forest.size) after ∧
      (∀ handle, engine.forest.contains handle = true →
        after.registry.keyOf? handle = engine.registry.keyOf? handle) ∧
      ∀ handle, engine.forest.contains handle = false → after.forest.contains handle = true →
        handle ∈ after.registry.handles := by
  obtain ⟨expanded, hstart, hgrown, -⟩ := expands settle (partLimit + 1) id engine h hquiet
  have hmaker : engine.maker = factory := by
    unfold maker
    rw [hfactory]
    rfl
  rw [hmaker] at hstart hgrown
  obtain ⟨hanswer, rfl⟩ : factory.answer engine.forest.next (partLimit + 1) id = .error error ∧
      expanded = after := by
    simpa using hstart.symm.trans hfailed
  -- The answer is an error only if some part nests too deep.
  have hexcess : ∃ part, factory.excess? (partLimit + 1) id = some part ∧
      error = .invalidTemplate (.partsTooDeep part partLimit) := by
    unfold Factory.answer Factory.verdict at hanswer
    split at hanswer
    next part hpart => exact ⟨part, hpart, (Except.error.inj hanswer).symm⟩
    next => cases hanswer
  obtain ⟨part, hpart, rfl⟩ := hexcess
  refine ⟨⟨part, rfl⟩, Factory.le_length_made hpart, hgrown, fun handle hknown => ?_,
    fun handle hnew hknown => ?_⟩
  · have hless : handle.index < engine.forest.size := by simpa [Forest.contains] using hknown
    rw [hgrown.registry, Registry.keyOf?_listing_of_lt _ hless]
  · obtain ⟨place, card, hcard, rfl⟩ := hgrown.exists_made hnew hknown
    obtain ⟨hplace, -⟩ := List.getElem?_eq_some_iff.1 hcard
    rw [Registry.mem_handles_iff, hgrown.registry]
    exact Registry.contains_listing hplace

/-- A snake that is a part of itself. -/
def ouroboros : Catalog :=
  .ofList [{ id := "ouroboros", category := .item, parts := ["ouroboros"] }]

/-- An engine in which nothing happened yet is one that programs come to. -/
theorem reachable_new (config : Config) {factory : Factory} (hfresh : factory.MakesFresh) :
    (new config (some factory)).Reachable := by
  let nothing : Program Unit := .done ()
  have hnothing : nothing.AsksOnly Operation.BringsFresh := trivial
  have hstart : nothing.Reaches (perform (invoker moving 0)) (new config (some factory)) nothing
      (new config (some factory)) := .start
  exact .intro askOnly_moving hnothing (fun _ hmade => Option.some.inj hmade ▸ hfresh) hstart

/-- An engine that makes snakes and does not pump by itself. -/
def snakePit : Engine := new { autoPump := false } (some (.ofCatalog ouroboros))

theorem reachable_snakePit : snakePit.Reachable :=
  reachable_new _ (Factory.makesFresh_ofCatalog ouroboros)

/-- Nine snakes are made before the creation fails. -/
theorem exists_start_createCard (invoke : Invoker) :
    ∃ after, (createCard (Engine.settle invoke) "ouroboros").start snakePit =
        some (.error (.invalidTemplate (.partsTooDeep "ouroboros" partLimit)), after) ∧
      after.forest.size = 9 := by
  obtain ⟨after, hstart, hgrown, -⟩ := expands (Engine.settle invoke) (partLimit + 1) "ouroboros"
    snakePit reachable_snakePit.arises (.inr ⟨.inl rfl, invoke, rfl⟩)
  exact ⟨after, hstart, hgrown.size⟩

/-- The snakes stay in the forest, and ticks reach them. -/
theorem failed_snakes_are_ticked :
    ∃ after, (createCard (Engine.settle (invoker moving 0)) "ouroboros").start snakePit =
        some (.error (.invalidTemplate (.partsTooDeep "ouroboros" partLimit)), after) ∧
      after.forest.size = 9 ∧
      ∀ handle, after.forest.contains handle = true → handle ∈ after.registry.handles := by
  obtain ⟨after, hstart, hsize⟩ := exists_start_createCard (invoker moving 0)
  obtain ⟨-, -, -, -, hticked⟩ := failed_creation_leaves_new_cards reachable_snakePit.arises rfl
    (.inr ⟨.inl rfl, invoker moving 0, rfl⟩) hstart
  exact ⟨after, hstart, hsize, fun handle hknown => hticked handle rfl hknown⟩

/-- A creation that fails does leave a trace. -/
theorem failed_creation_leaves_a_trace :
    ¬ ∀ (engine after : Engine) (catalog : Catalog) (invoke : Invoker) (id : String)
      (fault : TemplateFault), engine.Reachable → engine.factory = some (.ofCatalog catalog) →
      engine.config.autoPump = false →
      (perform invoke (.createCard id)).start engine =
        some (.error (.invalidTemplate fault), after) →
        after.forest.cards = engine.forest.cards ∧ after.registry = engine.registry ∧
          after.queue = engine.queue ∧ after.deferred = engine.deferred := by
  intro hrolledBack
  obtain ⟨after, hstart, hsize⟩ := exists_start_createCard fun _ _ => .never
  obtain ⟨hcards, -⟩ := hrolledBack snakePit after ouroboros (fun _ _ => .never) "ouroboros"
    (.partsTooDeep "ouroboros" partLimit) reachable_snakePit rfl rfl (by
      show (Answer.card <$> createCard _ _).start snakePit = _
      rw [start_map, hstart]
      rfl)
  have hempty : after.forest.size = 0 := congrArg Array.size hcards
  rw [hsize] at hempty
  cases hempty

end Engine

end CardRules
