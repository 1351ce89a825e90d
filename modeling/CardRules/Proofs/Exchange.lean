import CardRules.Proofs.Forest.Releasing
import CardRules.Proofs.Grafting

/-!
Exchanging children of a card. What an exchange takes away has no owner any more but stays in the
forest, and what it makes comes behind the children that stay. An exchange is made of steps, in
which one child is detached or one card is created and attached; all other cards are as they were.
-/

namespace CardRules

open EngineM

namespace Forest

/-- Some children of a card are spent, and others made. -/
structure Exchanges (bench : Handle) (spent made : List Handle) (forest after : Forest) :
    Prop where
  children : after.children bench = (forest.children bench).filter (· ∉ spent) ++ made
  owner : ∀ handle, forest.contains handle = true →
    after.owner? handle = if handle ∈ spent then none else forest.owner? handle
  /-- The cards from before are as they were, but for their links. -/
  plain : ∀ handle, forest.contains handle = true →
    (after.get? handle).map Card.plain = (forest.get? handle).map Card.plain
  /-- No child becomes an intrinsic one. -/
  marks : ∀ child, after.Marks bench child → forest.Marks bench child

variable {forest middle after : Forest} {bench child : Handle}
  {spent made moreSpent moreMade : List Handle}

namespace Exchanges

theorem refl (bench : Handle) (forest : Forest) : Exchanges bench [] [] forest forest where
  children := by simp
  owner _ _ := by simp
  plain _ _ := rfl
  marks _ h := h

theorem contains (h : Exchanges bench spent made forest after) {handle : Handle}
    (hknown : forest.contains handle = true) : after.contains handle = true := by
  have hplain := h.plain handle hknown
  obtain ⟨card, hcard⟩ := contains_iff.1 hknown
  rw [hcard] at hplain
  obtain ⟨later, hlater, -⟩ := Option.map_eq_some_iff.1 hplain
  exact contains_iff.2 ⟨later, hlater⟩

/-- It does not matter in which order things are spent. -/
theorem ofMemIff (h : Exchanges bench spent made forest after)
    (hsame : ∀ handle, handle ∈ spent ↔ handle ∈ moreSpent) :
    Exchanges bench moreSpent made forest after where
  children := by
    rw [h.children]
    congr 1
    exact List.filter_congr fun handle _ => by simp only [hsame]
  owner handle hknown := by
    rw [h.owner handle hknown]
    simp only [hsame]
  plain := h.plain
  marks := h.marks

/-- Exchanges add up, if the second one does not spend what the first one made. -/
theorem trans (h : Exchanges bench spent made forest middle)
    (h' : Exchanges bench moreSpent moreMade middle after)
    (hmade : ∀ handle ∈ made, handle ∉ moreSpent) :
    Exchanges bench (spent ++ moreSpent) (made ++ moreMade) forest after where
  children := by
    have hkept : made.filter (· ∉ moreSpent) = made :=
      List.filter_eq_self.2 fun handle hmem => decide_eq_true (hmade handle hmem)
    rw [h'.children, h.children, List.filter_append, hkept, List.filter_filter, List.append_assoc]
    congr 1
    refine List.filter_congr fun handle _ => ?_
    simp [Bool.and_comm]
  owner handle hknown := by
    rw [h'.owner handle (h.contains hknown), h.owner handle hknown]
    by_cases hspent : handle ∈ spent <;> by_cases hmore : handle ∈ moreSpent <;>
      simp [hspent, hmore]
  plain handle hknown := (h'.plain handle (h.contains hknown)).trans (h.plain handle hknown)
  marks child hmarks := h.marks child (h'.marks child hmarks)

end Exchanges

/-- Without its events, a forest is the same when an event was raised. -/
theorem emptied_emit (forest : Forest) (source : Handle) (event : Event) :
    (forest.emit source event).emptied = forest.emptied := by
  unfold emit
  split
  · split <;> rfl
  · rfl

theorem emptied_of_outbox (h : forest.outbox = []) : forest.emptied = forest := by
  unfold emptied
  rw [← h]

/-- To remove a child is to spend it. -/
theorem exchanges_remove? (hsound : forest.Sound)
    (h : forest.remove? bench child false = some after) :
    Exchanges bench [child] [] forest after where
  children := by rw [(released_remove? hsound h).children, List.append_nil]
  owner handle _ := (released_remove? hsound h).owner? handle
  plain handle _ := (released_remove? hsound h).sameView (fun _ _ _ => rfl) handle
  marks marked := by
    rintro ⟨card, hcard, hmem⟩
    rw [released_remove? hsound h bench] at hcard
    obtain ⟨old, hold, rfl⟩ := Option.map_eq_some_iff.1 hcard
    exact ⟨old, hold, hmem⟩

/-- To attach a card that came in later is to make it. -/
theorem exchanges_attach
    (hkept : ∀ handle, forest.contains handle = true → middle.get? handle = forest.get? handle)
    (hbench : forest.contains bench = true) (hnew : forest.contains child = false)
    (h : middle.attach bench child false = .ok after) :
    Exchanges bench [] [child] forest after where
  children := by
    have hsame : middle.children bench = forest.children bench := by
      unfold children
      rw [hkept bench hbench]
    rw [children_attach h, if_pos rfl, hsame]
    simp
  owner handle hknown := by
    have hne : handle ≠ child := by
      rintro rfl
      rw [hnew] at hknown
      cases hknown
    have hsame : middle.owner? handle = forest.owner? handle := by
      unfold owner?
      rw [hkept handle hknown]
    rw [owner?_attach h, if_neg hne, hsame]
    simp
  plain handle hknown := by
    have hview : SameView Card.plain middle after :=
      sameView_of_attach h (fun _ => rfl) fun _ => rfl
    rw [hview handle, hkept handle hknown]
  marks marked := by
    rintro ⟨card, hcard, hmem⟩
    obtain ⟨-, -, hne, -, -⟩ := attach_eq_ok h
    rw [get?_attach h, if_neg (Ne.symm hne), if_pos rfl, hkept bench hbench] at hcard
    obtain ⟨old, hold, rfl⟩ := Option.map_eq_some_iff.1 hcard
    exact ⟨old, hold, hmem⟩

end Forest

/-- All events inside a card that is made are about parts being added. -/
theorem Factory.kind_of_mem_joined {factory : Factory} {levels : Nat} {id : String} {next : Nat}
    {raised : Raised} (hmem : raised ∈ factory.joined levels id next) :
    raised.event.kind = .added := by
  induction levels generalizing id next with
  | zero => cases hmem
  | succ levels ih =>
    have hparts : ∀ (parts : List String) (owner : Handle) (next : Nat),
        raised ∈ factory.joinedParts levels (factory.joined levels) owner next parts →
          raised.event.kind = .added := by
      intro parts owner
      induction parts with
      | nil => exact fun _ hmem => by cases hmem
      | cons part rest ihParts =>
        intro next hmem
        unfold joinedParts at hmem
        rcases List.mem_append.1 hmem with hinside | hlater
        · exact ih hinside
        · split at hlater
          · cases hlater
          · rcases List.mem_append.1 hlater with hjoined | hrest
            · split at hjoined
              · rw [List.mem_singleton.1 hjoined]
                rfl
              · cases hjoined
            · exact ihParts _ hrest
    unfold joined at hmem
    split at hmem
    · exact hparts _ _ _ hmem
    · cases hmem

namespace Engine

variable {engine middle after : Engine} {bench child : Handle}
  {spent made moreSpent moreMade : List Handle} {described : Card}

/-- Some children of a card are spent, and new cards are made that are as described. The registry
says the same as before about all cards from before. Settings, rules and factory are the same. -/
structure Exchanges (bench : Handle) (spent made : List Handle) (described : Card)
    (engine after : Engine) : Prop where
  arises : after.Arises
  cards : Forest.Exchanges bench spent made engine.forest after.forest
  new : ∀ handle ∈ made, engine.forest.contains handle = false ∧
    (after.forest.get? handle).map Card.plain = some described
  keys : ∀ handle, engine.forest.contains handle = true →
    after.registry.keyOf? handle = engine.registry.keyOf? handle
  config : after.config = engine.config
  rules : after.rules = engine.rules
  factory : after.factory = engine.factory

namespace Exchanges

theorem refl (h : engine.Arises) (bench : Handle) (described : Card) :
    Exchanges bench [] [] described engine engine :=
  ⟨h, .refl bench engine.forest, fun _ hmem => absurd hmem List.not_mem_nil, fun _ _ => rfl, rfl,
    rfl, rfl⟩

/-- What does not concern cards, settings and rules exchanges nothing. -/
theorem still (h : after.Arises) (hsame : SameCards engine after)
    (hconfig : after.config = engine.config) (hrules : after.rules = engine.rules) (bench : Handle)
    (described : Card) : Exchanges bench [] [] described engine after where
  arises := h
  cards := by
    rw [hsame.forest]
    exact .refl bench engine.forest
  new _ hmem := absurd hmem List.not_mem_nil
  keys _ _ := by rw [hsame.registry]
  config := hconfig
  rules := hrules
  factory := hsame.factory

theorem ofMemIff (h : Exchanges bench spent made described engine after)
    (hsame : ∀ handle, handle ∈ spent ↔ handle ∈ moreSpent) :
    Exchanges bench moreSpent made described engine after :=
  ⟨h.arises, h.cards.ofMemIff hsame, h.new, h.keys, h.config, h.rules, h.factory⟩

/-- What is made is new, so it is no card from before. -/
theorem not_mem_of_contains (h : Exchanges bench spent made described engine after)
    {handle : Handle} (hmade : handle ∈ made) (hknown : engine.forest.contains handle = true) :
    False := by
  rw [(h.new handle hmade).1] at hknown
  cases hknown

theorem trans (h : Exchanges bench spent made described engine middle)
    (h' : Exchanges bench moreSpent moreMade described middle after)
    (hspent : ∀ handle ∈ moreSpent, engine.forest.contains handle = true) :
    Exchanges bench (spent ++ moreSpent) (made ++ moreMade) described engine after where
  arises := h'.arises
  cards := h.cards.trans h'.cards fun handle hmade hmem =>
    h.not_mem_of_contains hmade (hspent handle hmem)
  new handle hmem := by
    rcases List.mem_append.1 hmem with hold | hlater
    · obtain ⟨hnew, hplain⟩ := h.new handle hold
      obtain ⟨card, hcard, -⟩ := Option.map_eq_some_iff.1 hplain
      exact ⟨hnew, (h'.cards.plain handle (Forest.contains_iff.2 ⟨card, hcard⟩)).trans hplain⟩
    · obtain ⟨hnew, hplain⟩ := h'.new handle hlater
      refine ⟨?_, hplain⟩
      rw [Bool.eq_false_iff] at hnew ⊢
      exact fun hknown => hnew (h.cards.contains hknown)
  keys handle hknown :=
    (h'.keys handle (h.cards.contains hknown)).trans (h.keys handle hknown)
  config := h'.config.trans h.config
  rules := h'.rules.trans h.rules
  factory := h'.factory.trans h.factory

/-- What follows without any exchange changes nothing about an exchange. -/
theorem thenStill (h : Exchanges bench spent made described engine middle)
    (h' : Exchanges bench [] [] described middle after) :
    Exchanges bench spent made described engine after := by
  have hall := h.trans h' fun _ hmem => absurd hmem List.not_mem_nil
  rwa [List.append_nil, List.append_nil] at hall

end Exchanges

/-- While an event is processed, the events that come in are deferred, and they are all about
links. -/
structure Trails (engine after : Engine) : Prop where
  depth : after.depth = engine.depth
  pumping : after.pumping = engine.pumping
  queue : after.queue = engine.queue
  deferred : ∃ events : List Raised, after.deferred = engine.deferred ++ events ∧
    ∀ raised ∈ events, raised.event.kind = .added ∨ raised.event.kind = .removed

theorem Trails.trans (h : Trails engine middle) (h' : Trails middle after) :
    Trails engine after := by
  obtain ⟨first, hfirst, hlinks⟩ := h.deferred
  obtain ⟨second, hsecond, hlinks'⟩ := h'.deferred
  refine ⟨h'.depth.trans h.depth, h'.pumping.trans h.pumping, h'.queue.trans h.queue,
    first ++ second, ?_, fun raised hmem => ?_⟩
  · rw [hsecond, hfirst, List.append_assoc]
  · exact (List.mem_append.1 hmem).elim (hlinks raised) (hlinks' raised)

theorem Delivers.trails {events : List Raised} (h : Delivers engine events after)
    (hdepth : engine.depth ≠ 0)
    (hlinks : ∀ raised ∈ events, raised.event.kind = .added ∨ raised.event.kind = .removed) :
    Trails engine after := by
  refine ⟨by rw [h.rest], by rw [h.rest], ?_, engine.takenOn events, ?_, fun raised hmem => ?_⟩
  · rw [h.queue, if_neg hdepth, List.append_nil]
  · rw [h.deferred, if_neg hdepth]
  · exact hlinks raised (List.mem_filter.1 hmem).1

theorem Grown.trails {cards : List Card} {events : List Raised}
    (h : Grown engine cards events after) (hdepth : engine.depth ≠ 0)
    (hlinks : ∀ raised ∈ events, raised.event.kind = .added ∨ raised.event.kind = .removed) :
    Trails engine after := by
  refine ⟨h.depth_eq, by rw [h.rest], ?_, events, ?_, hlinks⟩
  · rw [h.queue, if_neg hdepth, List.append_nil]
  · rw [h.deferred, if_neg hdepth]

/-- An event was processed while no other one was. What came of it waits in the queue, and it is all
about links. -/
structure Concludes (engine after : Engine) : Prop where
  depth : after.depth = 0
  pumping : after.pumping = engine.pumping
  deferred : after.deferred = []
  queue : ∃ events : List Raised, after.queue = engine.queue ++ events ∧
    ∀ raised ∈ events, raised.event.kind = .added ∨ raised.event.kind = .removed

/-- What trails the outermost event is put into the queue when it is left. -/
theorem Trails.concludes (h : Trails engine after) (hdepth : engine.depth ≤ 1)
    (hdeferred : engine.deferred = []) : Concludes engine after.leave := by
  obtain ⟨events, hevents, hlinks⟩ := h.deferred
  rw [leave_of_depth (h.depth ▸ hdepth)]
  refine ⟨rfl, h.pumping, rfl, events, ?_, hlinks⟩
  rw [hevents, hdeferred, h.queue]
  rfl

/-- A child that is not intrinsic is spent by being detached. -/
theorem exists_detach (h : engine.Arises) (hdepth : engine.depth ≠ 0)
    (hchild : child ∈ engine.forest.children bench) (hloose : ¬ engine.forest.Marks bench child)
    (described : Card) :
    ∃ after, (detach settleInside child false).start engine = some (.ok true, after) ∧
      Exchanges bench [child] [] described engine after ∧ Trails engine after := by
  have hsound := h.listed.linked.sound
  obtain ⟨forest, delivered, hremove, hdetach, harises, hforest, hdelivers⟩ :=
    exists_detach_loose h (hsound.mem_children_iff.1 hchild) hloose
  obtain ⟨hchildren, howners, hplain, hmarks⟩ := Forest.exchanges_remove? hsound hremove
  refine ⟨delivered, hdetach, ⟨harises, ?_, fun _ hmem => absurd hmem List.not_mem_nil, ?_, ?_, ?_,
    ?_⟩, hdelivers.trails hdepth ?_⟩
  · rw [hforest]
    exact ⟨hchildren, howners, hplain, hmarks⟩
  · intro handle _
    rw [hdelivers.rest]
  · rw [hdelivers.rest]
  · rw [hdelivers.rest]
  · rw [hdelivers.rest]
  · intro raised hmem
    rw [List.mem_singleton.1 hmem]
    exact .inr rfl

/-- A card that came in is made by being attached. -/
theorem Grown.exists_attach {cards : List Card} {events : List Raised}
    (h : Grown engine cards events middle) (horigin : engine.Arises) (hdepth : engine.depth ≠ 0)
    (hbench : engine.forest.contains bench = true) (hnew : engine.forest.contains child = false)
    (hunowned : middle.Unowned child)
    (hdescribed : (middle.forest.get? child).map Card.plain = some described) :
    ∃ after, (attach settleInside bench child false).start middle = some (.ok (), after) ∧
      Exchanges bench [] [child] described engine after ∧ Trails middle after := by
  obtain ⟨card, hcard, howner⟩ := hunowned
  obtain ⟨forest, hattach⟩ := Forest.exists_attach h.grows horigin.listed.linked.sound
    h.arises.listed.linked.sound hbench hnew hcard howner false
  obtain ⟨delivered, harises, hdelivers, hinside, -⟩ := h.arises.settles (.attach hattach)
    (Forest.sameView_of_attach hattach (fun _ => rfl) fun _ => rfl) (Forest.outbox_attach hattach)
  have hforest : delivered.forest = forest.emptied := by
    cases hinside
    exact forest_deliver _
  obtain ⟨hchildren, howners, hplain, hmarks⟩ :=
    Forest.exchanges_attach h.kept hbench hnew hattach
  refine ⟨delivered, ?_, ⟨harises, ?_, ?_, ?_, ?_, ?_, ?_⟩,
    hdelivers.trails (h.depth_eq ▸ hdepth) ?_⟩
  · rw [start_attach, hattach]
    exact hinside
  · rw [hforest]
    exact ⟨hchildren, howners, hplain, hmarks⟩
  · intro handle hmem
    rw [List.mem_singleton.1 hmem, hforest]
    refine ⟨hnew, ?_⟩
    rw [Forest.get?_emptied, Forest.get?_attach hattach, if_pos rfl, ← hdescribed, hcard]
    rfl
  · intro handle hknown
    have hless : handle.index < engine.forest.size := by simpa [Forest.contains] using hknown
    rw [hdelivers.rest]
    show middle.registry.keyOf? handle = _
    rw [h.registry, Registry.keyOf?_listing_of_lt _ hless]
  · rw [hdelivers.rest, h.rest]
  · rw [hdelivers.rest, h.rest]
  · rw [hdelivers.rest, h.rest]
  · intro raised hmem
    rw [List.mem_singleton.1 hmem]
    exact .inl rfl

/-- Makes the card of a template and attaches it, as the effect does for each card it creates. -/
def bring (bench : Handle) (id : String) : EngineM Unit := do
  match ← createCard settleInside id with
  | some card => attach settleInside bench card false
  | none => pure ()

/-- A card is made by being brought, if its parts do not nest too deep. -/
theorem exists_bring (h : engine.Arises) (hdepth : engine.depth ≠ 0)
    (hbench : engine.forest.contains bench = true) {id : String}
    (hmake : engine.maker.make? id = some described)
    (hnests : engine.maker.excess? (partLimit + 1) id = none) :
    ∃ made after, (bring bench id).start engine = some (.ok (), after) ∧
      Exchanges bench [] [made] described engine after ∧ Trails engine after := by
  obtain ⟨grown, hcreate, hgrown, hunowned⟩ :=
    expands settleInside (partLimit + 1) id engine h (.inl rfl)
  have hanswer : engine.maker.answer engine.forest.next (partLimit + 1) id =
      .ok (some engine.forest.next) := by
    simp [Factory.answer, Factory.verdict, Factory.knows, hnests, hmake]
  have hdescribed : (grown.forest.get? engine.forest.next).map Card.plain = some described := by
    have hfirst : (engine.maker.made (partLimit + 1) id)[0]? = some described := by
      simp [Factory.made, hmake]
    obtain ⟨later, hlater, hplain, -⟩ := hgrown.made 0 described hfirst
    exact (congrArg (Option.map Card.plain) hlater).trans (congrArg some hplain)
  obtain ⟨after, hattach, hexchanges, htrails⟩ := hgrown.exists_attach h hdepth hbench
    (Forest.contains_next engine.forest) (hunowned _ hanswer) hdescribed
  have hinside : Trails engine grown :=
    hgrown.trails hdepth fun raised hmem => .inl (Factory.kind_of_mem_joined hmem)
  refine ⟨engine.forest.next, after, ?_, hexchanges, hinside.trans htrails⟩
  rw [hanswer] at hcreate
  unfold bring createCard
  rw [start_bind, hcreate]
  exact hattach

theorem run_create (invoke : Invoker) (context : RuleContext) (templates : List String)
    (count : Nat) (hfactory : engine.factory.isSome = true) :
    (Effect.run invoke context (.create templates count)).start engine =
      (templates.forM fun id => EngineM.times (bring context.container id) count).start engine := by
  rw [Effect.run, start_get_bind, if_pos hfactory]
  rfl

end Engine

end CardRules
