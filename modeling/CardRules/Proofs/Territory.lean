import CardRules.Proofs.Declarative
import CardRules.Proofs.Parts

/-!
Engines that are confined to a territory: no link leaves it, all events that wait come from its
cards, and no rule calls anything. All that such an engine can do when it settles, assembles or
processes events happens within the territory, and every new card belongs to it.
-/

namespace CardRules.Engine

open EngineM Forest

variable {within : Set Handle} {engine after last : Engine} {handle : Handle}

/-! ## Confined engines -/

/-- All events that wait: in the queues, and in the outbox. -/
def pending (engine : Engine) : List Raised :=
  engine.queue ++ engine.deferred ++ engine.forest.outbox

/-- An engine whose rules can get at nothing but a set of handles. -/
structure Confined (within : Set Handle) (engine : Engine) : Prop where
  linked : engine.SoundlyLinked
  declarative : engine.Declarative
  encloses : engine.forest.Encloses within
  upcoming : ∀ handle, engine.forest.contains handle = false → handle ∈ within
  sources : ∀ raised ∈ engine.pending, engine.forest.Inside within raised.source

/-- Between two engines nothing was done outside of a set of handles. -/
structure StaysWithin (within : Set Handle) (engine after : Engine) : Prop where
  confined : after.Confined within
  grows : Grows within engine.forest after.forest
  factory : after.factory = engine.factory

theorem Confined.stays (h : engine.Confined within) : StaysWithin within engine engine :=
  ⟨h, .refl engine.forest, rfl⟩

theorem StaysWithin.trans (hfirst : StaysWithin within engine after)
    (hsecond : StaysWithin within after last) : StaysWithin within engine last :=
  ⟨hsecond.confined, hfirst.grows.trans hsecond.grows, hsecond.factory.trans hfirst.factory⟩

theorem Confined.next_mem (h : engine.Confined within) : engine.forest.next ∈ within :=
  h.upcoming engine.forest.next (contains_next engine.forest)

/-- With more cards in the forest there are fewer to come. -/
theorem Confined.upcoming_of_contains (h : engine.Confined within) {forest : Forest}
    (hcontains : ∀ handle, engine.forest.contains handle = true → forest.contains handle = true)
    (handle : Handle) (hnew : forest.contains handle = false) : handle ∈ within := by
  apply h.upcoming
  rw [← Bool.not_eq_true]
  intro hknown
  rw [hcontains handle hknown] at hnew
  cases hnew

/-- What changes neither cards nor rules and brings no new events leaves an engine confined. -/
theorem Confined.staysOfSame (h : engine.Confined within) (hcards : SameCards engine after)
    (hrules : after.rules = engine.rules) (hpending : ∀ raised ∈ after.pending,
      raised ∈ engine.pending) : StaysWithin within engine after := by
  obtain ⟨hforest, hregistry, hfactory⟩ := hcards
  refine ⟨⟨h.linked.ofSame ⟨hforest, hregistry, hfactory⟩, ?_, ?_, ?_, ?_⟩, ?_, hfactory⟩
  · unfold Declarative
    rw [hrules]
    exact h.declarative
  · rw [hforest]
    exact h.encloses
  · rw [hforest]
    exact h.upcoming
  · intro raised hmem
    rw [hforest]
    exact h.sources raised (hpending raised hmem)
  · rw [hforest]
    exact .refl _

/-- An engine with another forest is confined if the forest keeps to the territory. -/
theorem Confined.withForest (h : engine.Confined within) {forest : Forest}
    (hsound : forest.Sound) (hencloses : forest.Encloses within)
    (hcontains : ∀ handle, engine.forest.contains handle = true → forest.contains handle = true)
    (houtbox : ∀ raised ∈ forest.outbox,
      raised ∈ engine.forest.outbox ∨ forest.Inside within raised.source) :
    { engine with forest }.Confined within := by
  have hold : ∀ raised ∈ engine.pending, forest.Inside within raised.source :=
    fun raised hmem => ⟨hcontains _ (h.sources raised hmem).1, (h.sources raised hmem).2⟩
  refine ⟨⟨hsound, h.linked.fresh⟩, h.declarative, hencloses,
    h.upcoming_of_contains hcontains, fun raised hmem => ?_⟩
  · rcases List.mem_append.1 hmem with hqueued | hraised
    · exact hold raised (List.mem_append_left _ hqueued)
    · rcases houtbox raised hraised with hbefore | hinside
      · exact hold raised (List.mem_append_right _ hbefore)
      · exact hinside

/-! ## Changes of cards -/

theorem mem_outbox_emit {forest : Forest} {source : Handle} {event : Event} {raised : Raised}
    (h : raised ∈ (forest.emit source event).outbox) :
    raised ∈ forest.outbox ∨ raised.source = source := by
  unfold emit at h
  split at h
  · split at h
    · exact .inl h
    · rcases List.mem_append.1 h with hold | hnew
      · exact .inl hold
      · rw [List.mem_singleton.1 hnew]
        exact .inr rfl
  · exact .inl h

theorem Confined.emit (h : engine.Confined within) {source : Handle} (event : Event)
    (hsource : engine.forest.Inside within source) :
    StaysWithin within engine { engine with forest := engine.forest.emit source event } := by
  have hgrows : Grows within engine.forest (engine.forest.emit source event) :=
    .ofSame fun handle => get?_emit engine.forest source event handle
  refine ⟨h.withForest (h.linked.sound.emit source event) ?_ (fun _ => hgrows.contains) ?_,
    hgrows, rfl⟩
  · refine h.encloses.ofSame fun handle => ?_
    exact (sameView_emit engine.forest source event).owner?_eq handle
  · intro raised hmem
    rcases mem_outbox_emit hmem with hold | rfl
    · exact .inl hold
    · exact .inr (hsource.grow hgrows)

/-- Removing a child without force. -/
theorem Confined.remove? (h : engine.Confined within) {parent child : Handle} {forest : Forest}
    (hremove : engine.forest.remove? parent child false = some forest) (hchild : child ∈ within) :
    StaysWithin within engine { engine with forest } := by
  have hsound := h.linked.sound
  have howner := owner?_of_remove? hremove hsound
  have hparent : parent ∈ within := (h.encloses child parent howner).1 hchild
  have hgrows := grows_remove? hsound hremove hparent hchild
  refine ⟨h.withForest (hsound.remove? hremove) (h.encloses.remove? hsound hremove)
    (fun _ => hgrows.contains) ?_, hgrows, rfl⟩
  intro raised hmem
  obtain ⟨_, -, -, -, rfl⟩ := remove?_eq_some hremove
  rcases mem_outbox_emit hmem with hold | rfl
  · exact .inl hold
  · have hknown := contains_of_owner? howner
    exact .inr ⟨hgrows.contains hknown, hchild⟩

theorem Confined.attach (h : engine.Confined within) {parent child : Handle} {intrinsic : Bool}
    {forest : Forest} (hattach : engine.forest.attach parent child intrinsic = .ok forest)
    (hparent : parent ∈ within) (hchild : child ∈ within) :
    { engine with forest }.Confined within := by
  have hcontains := contains_eq_of_size_eq (size_attach hattach)
  refine h.withForest (h.linked.sound.attach hattach)
    (h.encloses.attach hattach hparent hchild) (fun handle hknown => ?_) fun raised hmem => ?_
  · rw [hcontains, hknown]
  · obtain ⟨-, ⟨card, hcard, -⟩, -, -, rfl⟩ := attach_eq_ok hattach
    rcases mem_outbox_emit hmem with hold | rfl
    · exact .inl hold
    · refine .inr ⟨?_, hchild⟩
      rw [hcontains]
      exact contains_iff.2 ⟨card, hcard⟩

theorem Confined.addCard (h : engine.Confined within) {card : Card} (hfresh : card.IsFresh) :
    StaysWithin within engine (engine.addCard card) := by
  have hschedule := sameSchedule_addCard engine card
  have hgrows : Grows within engine.forest (engine.addCard card).forest := by
    apply Grows.ofNext h.next_mem
    intro handle hne
    exact (addCard_of_ne engine card hne).1
  refine ⟨⟨h.linked.addCard hfresh, ?_, ?_, ?_, ?_⟩, hgrows, factory_register _ _⟩
  · unfold Declarative Engine.addCard
    rw [rules_register]
    exact h.declarative
  · exact h.encloses.ofSame (owner?_addCard engine hfresh)
  · exact h.upcoming_of_contains fun _ hknown => contains_addCard card hknown
  · intro raised hmem
    unfold pending at hmem
    rw [hschedule.queue, hschedule.deferred, outbox_addCard] at hmem
    exact (h.sources raised hmem).grow hgrows

theorem kept_of_isEdit {change : Card → Card} (h : Card.IsEdit change) (card : Card) :
    card.Kept (change card) := by
  obtain ⟨_, _, heq⟩ := h card
  rw [heq]
  exact ⟨rfl, rfl, .inr rfl⟩

theorem Confined.modifyCards (h : engine.Confined within) {change : Card → Card}
    (hedits : Card.IsEdit change) {handles : List Handle}
    (hin : ∀ handle ∈ handles, handle ∈ within) :
    StaysWithin within engine (engine.modifyCards handles change) := by
  induction handles generalizing engine with
  | nil => exact h.stays
  | cons handle rest ih =>
    have hgrows : Grows within engine.forest (engine.forest.modify handle change) :=
      grows_modify (hin handle List.mem_cons_self) (kept_of_isEdit hedits)
    have hview := sameView_modify (links_of_isEdit hedits) engine.forest handle
    have hfirst : StaysWithin within engine
        { engine with forest := engine.forest.modify handle change } := by
      refine ⟨h.withForest (hview.sound h.linked.sound) (h.encloses.ofSame hview.owner?_eq)
        (fun _ => hgrows.contains) ?_, hgrows, rfl⟩
      exact fun raised hmem => .inl hmem
    refine hfirst.trans (ih hfirst.confined fun other hmem => ?_)
    exact hin other (List.mem_cons_of_mem _ hmem)

/-- What is handed out waited before. -/
theorem pending_deliver {raised : Raised} (h : raised ∈ engine.deliver.pending) :
    raised ∈ engine.pending := by
  have hqueues : ∀ raised ∈ engine.deliver.queue ++ engine.deliver.deferred,
      raised ∈ engine.pending := by
    refine @deliver_keeps_of_mem (fun after => ∀ raised ∈ after.queue ++ after.deferred,
      raised ∈ engine.pending) engine ?_ (fun _ _ _ _ h => h) fun raised hmem =>
        List.mem_append_left _ hmem
    intro taken htaken after _ hafter raised hmem
    have hcases : raised = taken ∨ raised ∈ after.queue ++ after.deferred := by
      unfold enqueue at hmem
      split at hmem
      all_goals
        simp only [record, List.mem_append, List.mem_singleton] at hmem ⊢
        tauto
    rcases hcases with rfl | hold
    · exact List.mem_append_right _ htaken
    · exact hafter raised hold
  have hempty : engine.deliver.forest.outbox = [] := by
    rw [forest_deliver]
    rfl
  unfold pending at h
  rw [hempty, List.append_nil] at h
  exact hqueues raised h

theorem Confined.deliver (h : engine.Confined within) :
    StaysWithin within engine engine.deliver := by
  have hgrows : Grows within engine.forest engine.deliver.forest := by
    rw [forest_deliver]
    exact .ofSame (get?_emptied engine.forest)
  refine ⟨⟨h.linked.relinked h.linked.sound, ?_, ?_, ?_, ?_⟩, hgrows, factory_deliver engine⟩
  · unfold Declarative
    rw [rules_deliver]
    exact h.declarative
  · rw [forest_deliver]
    exact h.encloses
  · rw [forest_deliver]
    exact h.upcoming
  · intro raised hmem
    exact (h.sources raised (pending_deliver hmem)).grow hgrows

/-! ## Computations that stay within -/

/-- The only errors there are to expect of a confined engine: some parts nest too deep. -/
def Excuses (engine : Engine) (error : Error) : Prop :=
  ∃ part id, error = .invalidTemplate (.partsTooDeep part partLimit) ∧
    engine.maker.Nests (partLimit + 1) id

/-- A computation has an outcome, it stays within, and only parts that nest too deep make it
fail. -/
def WorksWithin {α : Type} (within : Set Handle) (engine : Engine) (action : EngineM α) : Prop :=
  ∃ result after, action.start engine = some (result, after) ∧ StaysWithin within engine after ∧
    ∀ error, result = .error error → engine.Excuses error

theorem StaysWithin.maker_eq (h : StaysWithin within engine after) :
    after.maker = engine.maker := by
  unfold maker
  rw [h.factory]

section

variable {α β : Type} {action : EngineM α}

theorem WorksWithin.ofOk {value : α} (hstart : action.start engine = some (.ok value, after))
    (hstays : StaysWithin within engine after) : WorksWithin within engine action :=
  ⟨.ok value, after, hstart, hstays, fun _ herror => by cases herror⟩

/-- What works later on, without a way back, works from the start. -/
theorem WorksWithin.goingOn {other : EngineM α} (hstart : action.start engine = other.start after)
    (hstays : StaysWithin within engine after) (h : WorksWithin within after other) :
    WorksWithin within engine action := by
  obtain ⟨result, final, hother, hfinal, herrors⟩ := h
  refine ⟨result, final, hstart.trans hother, hstays.trans hfinal, fun error herror => ?_⟩
  obtain ⟨part, id, hpart, hnests⟩ := herrors error herror
  exact ⟨part, id, hpart, hstays.maker_eq ▸ hnests⟩

theorem WorksWithin.bind {next : α → EngineM β} (h : WorksWithin within engine action)
    (hnext : ∀ value after, StaysWithin within engine after →
      WorksWithin within after (next value)) : WorksWithin within engine (action >>= next) := by
  obtain ⟨result, after, hstart, hstays, herrors⟩ := h
  cases result with
  | error error =>
    exact ⟨.error error, after, by rw [start_bind, hstart], hstays,
      fun other hother => herrors other (by rw [← Except.error.inj hother])⟩
  | ok value =>
    exact .goingOn (by rw [start_bind, hstart]) hstays (hnext value after hstays)

theorem WorksWithin.map (change : α → β) (h : WorksWithin within engine action) :
    WorksWithin within engine (change <$> action) := by
  obtain ⟨result, after, hstart, hstays, herrors⟩ := h
  refine ⟨result.map change, after, by rw [start_map, hstart]; rfl, hstays, fun error herror => ?_⟩
  cases result with
  | error other => exact herrors error (by simpa [Except.map] using herror)
  | ok value => cases herror

theorem WorksWithin.forM {next : α → EngineM Unit} {values : List α} (h : engine.Confined within)
    (hnext : ∀ value ∈ values, ∀ here, StaysWithin within engine here →
      WorksWithin within here (next value)) : WorksWithin within engine (values.forM next) := by
  induction values generalizing engine with
  | nil => exact .ofOk rfl h.stays
  | cons value rest ih =>
    unfold List.forM
    refine (hnext value List.mem_cons_self engine h.stays).bind fun _ after hafter => ?_
    refine ih hafter.confined fun other hmem here hhere => ?_
    exact hnext other (List.mem_cons_of_mem _ hmem) here (hafter.trans hhere)

theorem WorksWithin.times {action : EngineM Unit} (h : engine.Confined within)
    (haction : ∀ here, StaysWithin within engine here → WorksWithin within here action)
    (count : Nat) : WorksWithin within engine (EngineM.times action count) := by
  induction count generalizing engine with
  | zero => exact .ofOk rfl h.stays
  | succ count ih =>
    unfold EngineM.times
    refine (haction engine h.stays).bind fun _ after hafter => ?_
    exact ih hafter.confined fun here hhere => haction here (hafter.trans hhere)

theorem WorksWithin.thenAlways {change : Engine → Engine}
    (h : WorksWithin within engine action)
    (hchange : ∀ after, after.Confined within → StaysWithin within after (change after)) :
    WorksWithin within engine (action.thenAlways change) := by
  obtain ⟨result, after, hstart, hstays, herrors⟩ := h
  exact ⟨result, change after, by rw [start_thenAlways, hstart]; rfl,
    hstays.trans (hchange after hstays.confined), herrors⟩

end

/-! ## Assembling -/

/-- Settling always ends well, and it stays within. -/
def SettlesWithin (within : Set Handle) (settle : EngineM Unit) : Prop :=
  ∀ engine, engine.Confined within →
    ∃ after, settle.start engine = some (.ok (), after) ∧ StaysWithin within engine after

theorem settlesWithin_settleInside : SettlesWithin within settleInside :=
  fun engine h => ⟨engine.deliver, rfl, h.deliver⟩

theorem SoundlyLinked.isFresh_of_make? (h : engine.SoundlyLinked) {id : String} {card : Card}
    (hmade : engine.maker.make? id = some card) : card.IsFresh := by
  obtain ⟨factory, hfactory, hmake⟩ := exists_factory_of_make? hmade
  exact h.fresh factory hfactory id card hmake

/-- A card that comes in fresh is under construction, with no parts yet. -/
theorem building_addCard (engine : Engine) {factory : Factory} {levels : Nat} {id : String}
    {card : Card} (hfresh : card.IsFresh) (hid : factory.NamesCards → card.id = id) :
    (engine.addCard card).forest.Building factory levels id engine.forest.next [] := by
  obtain ⟨later, hlater, hlaterId, hlinks⟩ := get?_addCard_next engine card
  obtain ⟨howner, hchildren, -⟩ :
      later.owner = card.owner ∧ later.children = card.children ∧ _ := by
    simpa [Card.links] using hlinks
  refine ⟨later, hlater, howner.trans hfresh.owner, fun hnames => ⟨hlaterId.trans (hid hnames), ?_⟩⟩
  simp [Card.intrinsicChildren, hchildren, hfresh.children]

section

variable {settle : EngineM Unit} (hsettle : SettlesWithin within settle)

include hsettle

/-- A card that came in later and has no owner yet is attached to one from before. -/
theorem exists_attach_within {earlier : Forest} (h : engine.Confined within)
    (hgrows : Grows within earlier engine.forest) (hearlier : earlier.Sound)
    {parent child : Handle} (hparent : earlier.Inside within parent)
    (hnew : earlier.contains child = false) (hchild : child ∈ within) {card : Card}
    (hcard : engine.forest.get? child = some card) (howner : card.owner = none)
    (intrinsic : Bool) :
    ∃ forest after, engine.forest.attach parent child intrinsic = .ok forest ∧
      (Engine.attach settle parent child intrinsic).start engine = some (.ok (), after) ∧
      StaysWithin within { engine with forest } after := by
  obtain ⟨forest, hattach⟩ := exists_attach hgrows hearlier h.linked.sound hparent.1 hnew hcard
    howner intrinsic
  obtain ⟨after, hstart, hstays⟩ := hsettle _ (h.attach hattach hparent.2 hchild)
  exact ⟨forest, after, hattach, by rw [start_attach, hattach]; exact hstart, hstays⟩

/-- What assembling comes to in an engine that is confined: its answer, and the card that it made,
which nobody owns yet. -/
def Assembles (within : Set Handle) (settle : EngineM Unit) (levels : Nat) : Prop :=
  ∀ (id : String) (engine : Engine), engine.Confined within →
    ∃ after, (assemble settle levels id).start engine =
        some (engine.maker.answer engine.forest.next levels id, after) ∧
      StaysWithin within engine after ∧
      ∀ made, engine.maker.answer engine.forest.next levels id = .ok (some made) →
        ∃ card, after.forest.get? made = some card ∧ card.owner = none ∧
          (engine.maker.NamesCards → after.forest.Assembled engine.maker levels id made)

/-- The part that was just made is attached to a card that came in after the origin. -/
theorem attachPart_within {levels : Nat} {origin here middle : Engine}
    (hhere : StaysWithin within origin here) (hmiddle : StaysWithin within here middle)
    {id part : String} (hnew : origin.forest.contains handle = false) (hin : handle ∈ within)
    {done : List String} (hbuilding : here.forest.Building origin.maker levels id handle done)
    (hknown : origin.maker.knows part = true) {card : Card}
    (hcard : middle.forest.get? here.forest.next = some card) (howner : card.owner = none)
    (hassembled : origin.maker.NamesCards →
      middle.forest.Assembled origin.maker levels part here.forest.next) :
    ∃ after, (Engine.attach settle handle here.forest.next true).start middle =
        some (.ok (), after) ∧
      StaysWithin within origin after ∧
      after.forest.Building origin.maker levels id handle (done ++ [part]) := by
  -- The card that gets the part was there before the part came in.
  have hnewPart := contains_next here.forest
  have hpart := hhere.confined.next_mem
  have hknownHandle : here.forest.contains handle = true := by
    obtain ⟨found, hfound, -⟩ := hbuilding
    exact contains_iff.2 ⟨found, hfound⟩
  obtain ⟨forest, after, hattach, hstart, hafter⟩ := exists_attach_within hsettle
    hmiddle.confined hmiddle.grows hhere.confined.linked.sound ⟨hknownHandle, hin⟩ hnewPart
    hpart hcard howner true
  have hsound := hmiddle.confined.linked.sound
  have hnewOrigin : origin.forest.contains here.forest.next = false := by
    rw [← Bool.not_eq_true]
    intro hold
    rw [hhere.grows.contains hold] at hnewPart
    cases hnewPart
  have hgrows : Grows within origin.forest forest :=
    (hhere.trans hmiddle).grows.attach hsound hattach hin hpart hnewOrigin fun _ => hnew
  have hattached : StaysWithin within origin after :=
    ⟨hafter.confined, hgrows.trans hafter.grows, hafter.factory.trans (hhere.trans hmiddle).factory⟩
  have hbuilding' := hbuilding.grow hmiddle.grows
  exact ⟨after, hstart, hattached,
    (hbuilding'.attach hsound hattach hknown hassembled).grow hafter.grows⟩

/-- One part more for a card that came in after the origin. -/
theorem addPart_within {levels : Nat} (hassembles : Assembles within settle levels)
    {origin here : Engine} (hhere : StaysWithin within origin here) {id : String}
    (hnew : origin.forest.contains handle = false) (hin : handle ∈ within) {done : List String}
    (hbuilding : here.forest.Building origin.maker levels id handle done) (part : String) :
    ∃ after, (addPart settle levels handle part).start here =
        some (Factory.verdict (origin.maker.excess? levels part) (), after) ∧
      StaysWithin within origin after ∧
      (origin.maker.excess? levels part = none →
        after.forest.Building origin.maker levels id handle (done ++ [part])) := by
  obtain ⟨middle, hstart, hmiddle, hmade⟩ := hassembles part here hhere.confined
  rw [hhere.maker_eq] at hstart hmade
  unfold addPart
  rw [start_bind, hstart]
  cases hexcess : origin.maker.excess? levels part with
  | some deep =>
    refine ⟨middle, ?_, hhere.trans hmiddle, nofun⟩
    simp [Factory.answer, Factory.verdict, hexcess]
  | none =>
    by_cases hknown : origin.maker.knows part = true
    · have hanswer : origin.maker.answer here.forest.next levels part =
          .ok (some here.forest.next) := by
        simp [Factory.answer, Factory.verdict, hexcess, hknown]
      obtain ⟨card, hcard, howner, hassembled⟩ := hmade _ hanswer
      obtain ⟨after, hattach, hafter, hbuilt⟩ := attachPart_within hsettle hhere hmiddle hnew hin
        hbuilding hknown hcard howner hassembled
      rw [hanswer]
      exact ⟨after, hattach, hafter, fun _ => hbuilt⟩
    · refine ⟨middle, ?_, hhere.trans hmiddle, fun _ => ?_⟩
      · simp [Factory.answer, Factory.verdict, hexcess, hknown]
      · exact (hbuilding.grow hmiddle.grows).pass (by simpa using hknown)

theorem forM_addPart_within {levels : Nat} (hassembles : Assembles within settle levels)
    {origin here : Engine} (hhere : StaysWithin within origin here) {id : String}
    (hnew : origin.forest.contains handle = false) (hin : handle ∈ within) {done : List String}
    (hbuilding : here.forest.Building origin.maker levels id handle done) (parts : List String) :
    ∃ after, (parts.forM (addPart settle levels handle)).start here =
        some (Factory.verdict (parts.findSome? (origin.maker.excess? levels)) (), after) ∧
      StaysWithin within origin after ∧
      (parts.findSome? (origin.maker.excess? levels) = none →
        after.forest.Building origin.maker levels id handle (done ++ parts)) := by
  induction parts generalizing here done with
  | nil => exact ⟨here, rfl, hhere, fun _ => by simpa using hbuilding⟩
  | cons part rest ih =>
    obtain ⟨middle, hstart, hmiddle, hbuilt⟩ :=
      addPart_within hsettle hassembles hhere hnew hin hbuilding part
    unfold List.forM
    cases hexcess : origin.maker.excess? levels part with
    | some deep =>
      refine ⟨middle, ?_, hmiddle, fun hnone => ?_⟩
      · rw [start_bind, hstart, hexcess, List.findSome?_cons, hexcess]
        rfl
      · simp [hexcess] at hnone
    | none =>
      obtain ⟨after, hrest, hafter, hdone⟩ := ih hmiddle (hbuilt hexcess)
      refine ⟨after, ?_, hafter, fun hnone => ?_⟩
      · rw [start_bind, hstart, hexcess, List.findSome?_cons, hexcess]
        exact hrest
      · rw [List.findSome?_cons, hexcess] at hnone
        simpa using hdone hnone

theorem assemble_within (levels : Nat) : Assembles within settle levels := by
  induction levels with
  | zero =>
    intro id engine h
    refine ⟨engine, rfl, h.stays, fun made hmade => ?_⟩
    cases hmade
  | succ levels ih =>
    intro id engine h
    rw [start_assemble]
    cases hmade : engine.maker.make? id with
    | none =>
      have hknown : engine.maker.knows id = false := by simp [Factory.knows, hmade]
      refine ⟨engine, ?_, h.stays, fun made hanswer => ?_⟩
      · simp [Factory.answer, Factory.verdict, Factory.excess?, hknown]
      · obtain ⟨-, hknown', -⟩ := Factory.answer_eq_some hanswer
        rw [hknown] at hknown'
        cases hknown'
    | some card =>
      have hknown : engine.maker.knows id = true := by simp [Factory.knows, hmade]
      have hexcess : engine.maker.excess? (levels + 1) id =
          (engine.maker.parts id).findSome? (engine.maker.excess? levels) := by
        rw [Factory.excess?, if_pos hknown]
      have hfresh := h.linked.isFresh_of_make? hmade
      obtain ⟨after, hstart, hafter, hbuilding⟩ := forM_addPart_within hsettle ih
        (h.addCard hfresh) (contains_next engine.forest) h.next_mem
        (building_addCard engine hfresh fun hnames => hnames id card hmade)
        (engine.maker.parts id)
      refine ⟨after, ?_, hafter, fun made hanswer => ?_⟩
      · simp only [start_map, hstart, Factory.answer, hexcess, hknown, if_true]
        unfold Factory.verdict
        split <;> rfl
      · obtain ⟨rfl, -, hnone⟩ := Factory.answer_eq_some hanswer
        obtain ⟨later, hlater, howner, hbuilt⟩ := hbuilding (hexcess ▸ hnone)
        refine ⟨later, hlater, howner, fun hnames => ⟨later, hlater, ?_⟩⟩
        simpa using hbuilt hnames

end

end CardRules.Engine
