import CardRules.Proofs.Mirroring
import CardRules.Proofs.Unfolding

/-!
How deep parts may nest, and what becomes of parts without a template. Making a card fails just if
there is a chain of parts that is too long; the limit is checked before a template is looked for, so
the last id of the chain may be one without. Everywhere else such ids are passed over: the run is
that of a catalog in which they are not listed.
-/

namespace CardRules

open EngineM

/-! ## Chains of parts -/

/-- No part is reported just if parts do not nest so deep. -/
theorem Factory.excess?_eq_none_iff {factory : Factory} {levels : Nat} {id : String} :
    factory.excess? levels id = none ↔ ¬ factory.Nests levels id := by
  induction levels generalizing id with
  | zero => simp [excess?, Nests]
  | succ levels ih =>
    unfold excess? Nests
    by_cases hknown : factory.knows id = true
    · simp [hknown, ih]
    · simp [hknown]

namespace Catalog

variable {catalog : Catalog} {levels : Nat} {id : String} {template : Template}
  {ids : Nat → String}

/-- Ids one below the other: each of the first so many has a template, and that lists the next
one. -/
def Chain (catalog : Catalog) (levels : Nat) (ids : Nat → String) : Prop :=
  ∀ level < levels, ∃ template,
    catalog.find? (ids level) = some template ∧ ids (level + 1) ∈ template.parts

theorem chain_zero (catalog : Catalog) (ids : Nat → String) : catalog.Chain 0 ids :=
  fun level hless => absurd hless (Nat.not_lt_zero level)

/-- A chain with one more id above it. -/
theorem Chain.above (h : catalog.Chain levels ids) (hfound : catalog.find? id = some template)
    (hmem : ids 0 ∈ template.parts) :
    catalog.Chain (levels + 1) fun | 0 => id | level + 1 => ids level := by
  intro level hless
  cases level with
  | zero => exact ⟨template, hfound, hmem⟩
  | succ level => exact h level (Nat.lt_of_succ_lt_succ hless)

/-- A chain without its first id. -/
theorem Chain.below (h : catalog.Chain (levels + 1) ids) :
    catalog.Chain levels fun level => ids (level + 1) :=
  fun level hless => h (level + 1) (Nat.succ_lt_succ hless)

/-- Parts nest so deep just if there is a chain as long. -/
theorem nests_iff :
    (Factory.ofCatalog catalog).Nests levels id ↔ ∃ ids, ids 0 = id ∧ catalog.Chain levels ids := by
  induction levels generalizing id with
  | zero => exact ⟨fun _ => ⟨fun _ => id, rfl, chain_zero catalog _⟩, fun _ => trivial⟩
  | succ levels ih =>
    constructor
    · rintro ⟨hknown, part, hmem, hnests⟩
      obtain ⟨ids, rfl, hchain⟩ := ih.1 hnests
      rw [knows_ofCatalog, contains] at hknown
      obtain ⟨template, hfound⟩ := Option.isSome_iff_exists.1 hknown
      rw [parts_ofCatalog hfound] at hmem
      exact ⟨_, rfl, hchain.above hfound hmem⟩
    · rintro ⟨ids, rfl, hchain⟩
      obtain ⟨template, hfound, hmem⟩ := hchain 0 (Nat.succ_pos levels)
      refine ⟨?_, ids 1, ?_, ih.2 ⟨_, rfl, hchain.below⟩⟩
      · simp [knows_ofCatalog, contains, hfound]
      · rw [parts_ofCatalog hfound]
        exact hmem

/-- No chain so long ends with an id that has no template. -/
def EndsKnown (catalog : Catalog) (levels : Nat) (id : String) : Prop :=
  ∀ ids, ids 0 = id → catalog.Chain levels ids → catalog.contains (ids levels) = true

theorem EndsKnown.below (h : catalog.EndsKnown (levels + 1) id)
    (hfound : catalog.find? id = some template) {part : String} (hmem : part ∈ template.parts) :
    catalog.EndsKnown levels part := by
  rintro ids rfl hchain
  exact h _ rfl (hchain.above hfound hmem)

/-! ## Catalogs without loose ends -/

/-- The catalog in which only ids with a template are listed as parts. -/
def pruned (catalog : Catalog) : Catalog where
  templates := catalog.templates.map fun template =>
    { template with parts := template.parts.filter catalog.contains }
  nodup := by
    rw [List.map_map]
    exact catalog.nodup

theorem find?_pruned (catalog : Catalog) (id : String) :
    catalog.pruned.find? id = (catalog.find? id).map fun template =>
      { template with parts := template.parts.filter catalog.contains } :=
  List.find?_map

theorem make?_pruned (catalog : Catalog) (id : String) :
    (Factory.ofCatalog catalog.pruned).make? id = (Factory.ofCatalog catalog).make? id := by
  simp only [Factory.ofCatalog, find?_pruned, Option.map_map]
  rfl

theorem parts_pruned (catalog : Catalog) (id : String) :
    (Factory.ofCatalog catalog.pruned).parts id =
      ((Factory.ofCatalog catalog).parts id).filter catalog.contains := by
  simp only [Factory.ofCatalog, find?_pruned]
  cases catalog.find? id with
  | none => rfl
  | some template => rfl

/-- A chain that ends with an id that has a template is one of parts that have one. -/
theorem Chain.pruned (h : catalog.Chain levels ids)
    (hlast : catalog.contains (ids levels) = true) : catalog.pruned.Chain levels ids := by
  intro level hless
  obtain ⟨template, hfound, hmem⟩ := h level hless
  refine ⟨_, (find?_pruned catalog _).trans (congrArg (Option.map _) hfound), ?_⟩
  refine List.mem_filter.2 ⟨hmem, ?_⟩
  rcases Nat.lt_or_eq_of_le (Nat.succ_le_of_lt hless) with hbefore | rfl
  · obtain ⟨below, hbelow, -⟩ := h (level + 1) hbefore
    simp [contains, hbelow]
  · exact hlast

end Catalog

namespace Engine

variable {engine other after : Engine} {catalog : Catalog} {settle : EngineM Unit} {card : Card}

/-! ## Another factory -/

/-- The engine with another factory. -/
def refitted (engine : Engine) (factory : Factory) : Engine :=
  { engine with factory := some factory }

theorem register_refitted (engine : Engine) (factory : Factory) (handle : Handle) :
    (engine.refitted factory).register handle = (engine.register handle).refitted factory := by
  unfold register
  by_cases hregistered : engine.isRegistered handle = true
  · rw [if_pos hregistered]
    exact if_pos hregistered
  · rw [if_neg hregistered]
    refine (if_neg hregistered).trans ?_
    cases hcard : engine.forest.get? handle with
    | none => simp [refitted, hcard]
    | some card => simp [refitted, hcard]

theorem addCard_refitted (engine : Engine) (factory : Factory) (card : Card) :
    (engine.refitted factory).addCard card = (engine.addCard card).refitted factory :=
  register_refitted { engine with forest := engine.forest.insert card } factory engine.forest.next

theorem announce_refitted (engine : Engine) (factory : Factory) (raised : Raised) :
    (engine.refitted factory).announce raised = (engine.announce raised).refitted factory := by
  have hforest : (engine.refitted factory).forest = engine.forest := rfl
  unfold announce
  rw [hforest]
  cases engine.forest.get? raised.source with
  | none => rfl
  | some card =>
    simp only [foldl_hand]
    rfl

theorem deliver_refitted (engine : Engine) (factory : Factory) :
    (engine.refitted factory).deliver = engine.deliver.refitted factory := by
  show engine.forest.outbox.foldl announce
    ({ engine with forest := engine.forest.emptied }.refitted factory) = _
  exact List.foldl_hom (fun here : Engine => here.refitted factory) fun here raised =>
    announce_refitted here factory raised

/-! ## The same run without loose ends -/

/-- An engine that makes the cards of a catalog and does not pump, and the same engine with loose
ends pruned. -/
structure Pruning (catalog : Catalog) (settle : EngineM Unit) (engine other : Engine) : Prop where
  factory : engine.factory = some (.ofCatalog catalog)
  quiet : Quiet engine settle
  other : other = engine.refitted (.ofCatalog catalog.pruned)

namespace Pruning

theorem maker_eq (h : Pruning catalog settle engine other) :
    engine.maker = .ofCatalog catalog ∧ other.maker = .ofCatalog catalog.pruned := by
  obtain ⟨hfactory, -, rfl⟩ := h
  unfold maker
  rw [hfactory]
  exact ⟨rfl, rfl⟩

theorem addCard (h : Pruning catalog settle engine other) (card : Card) :
    Pruning catalog settle (engine.addCard card) (other.addCard card) := by
  obtain ⟨hfactory, hquiet, rfl⟩ := h
  have hstanding := sameStanding_addCard engine card
  have hidle : (engine.addCard card).isIdle = engine.isIdle := by
    unfold isIdle
    rw [hstanding.pumping, (sameSchedule_addCard engine card).depth]
  exact ⟨(factory_register _ _).trans hfactory, hquiet.congr hstanding.config hidle,
    addCard_refitted engine _ card⟩

/-- Settling comes to the same, whatever is in the outbox. -/
theorem settled (h : Pruning catalog settle engine other) (forest : Forest) :
    Ends (Pruning catalog settle) (settle.start { engine with forest })
      (settle.start { other with forest }) := by
  obtain ⟨hfactory, hquiet, rfl⟩ := h
  have hleft : Quiet { engine with forest } settle := hquiet.congr rfl rfl
  have hright : Quiet ({ engine with forest }.refitted (.ofCatalog catalog.pruned)) settle :=
    hquiet.congr rfl rfl
  have hend : Pruning catalog settle { engine with forest }.deliver
      ({ engine with forest }.refitted (.ofCatalog catalog.pruned)).deliver := by
    refine ⟨?_, hleft.congr (config_deliver _) (isIdle_deliver _), deliver_refitted _ _⟩
    rw [factory_deliver]
    exact hfactory
  rw [hleft.start_eq]
  show Ends _ _ (settle.start ({ engine with forest }.refitted (.ofCatalog catalog.pruned)))
  rw [hright.start_eq]
  exact .ended (.ok ()) hend

theorem attach (h : Pruning catalog settle engine other) (parent child : Handle)
    (intrinsic : Bool) :
    Ends (Pruning catalog settle) ((Engine.attach settle parent child intrinsic).start engine)
      ((Engine.attach settle parent child intrinsic).start other) := by
  have hforest : other.forest = engine.forest := by
    rw [h.other]
    rfl
  rw [start_attach, start_attach, hforest]
  cases engine.forest.attach parent child intrinsic with
  | error error => exact .ended (.error error) h
  | ok forest => exact h.settled forest

end Pruning

/-- A step for each of some values, and the same without those for which nothing is done. -/
theorem mirrors_forM_filter {α : Type} {rel : Engine → Engine → Prop} {keep : α → Bool}
    {next next' : α → EngineM Unit} {values : List α}
    (hkept : ∀ value ∈ values, keep value = true → Mirrors rel (next value) (next' value))
    (hskipped : ∀ value ∈ values, keep value = false → ∀ engine other, rel engine other →
      (next value).start engine = some (.ok (), engine)) :
    Mirrors rel (values.forM next) ((values.filter keep).forM next') := by
  induction values with
  | nil => exact .pure ()
  | cons value rest ih =>
    have hrest := ih (fun other hmem => hkept other (List.mem_cons_of_mem _ hmem))
      fun other hmem => hskipped other (List.mem_cons_of_mem _ hmem)
    by_cases hkeep : keep value = true
    · rw [List.filter_cons_of_pos hkeep]
      exact .bind (hkept value List.mem_cons_self hkeep) fun _ => hrest
    · rw [List.filter_cons_of_neg hkeep]
      intro engine other hrel
      have hnothing := hskipped value List.mem_cons_self (by simpa using hkeep) engine other hrel
      have hstart : ((value :: rest).forM next).start engine = (rest.forM next).start engine := by
        show (next value >>= fun _ => rest.forM next).start engine = _
        rw [start_bind, hnothing]
      rw [hstart]
      exact hrest engine other hrel

/-- Assembling passes over ids without a template, unless the limit is reached with one. -/
theorem mirrors_assemble (settle : EngineM Unit) {levels : Nat} {id : String}
    (hknown : catalog.EndsKnown levels id) :
    Mirrors (Pruning catalog settle) (assemble settle levels id) (assemble settle levels id) := by
  induction levels generalizing id with
  | zero => exact .throw _
  | succ levels ih =>
    intro engine other h
    obtain ⟨hmaker, hmaker'⟩ := h.maker_eq
    have hnext : other.forest.next = engine.forest.next := by
      rw [h.other]
      rfl
    rw [start_assemble, start_assemble, hmaker, hmaker', Catalog.make?_pruned,
      Catalog.parts_pruned, hnext]
    cases hfound : catalog.find? id with
    | none =>
      have hmake : (Factory.ofCatalog catalog).make? id = none := by
        simp [Factory.ofCatalog, hfound]
      rw [hmake]
      exact .ended (.ok none) h
    | some template =>
      have hmake : (Factory.ofCatalog catalog).make? id = some (.ofTemplate template) := by
        simp [Factory.ofCatalog, hfound]
      rw [hmake, Catalog.parts_ofCatalog hfound]
      refine .map _ (mirrors_forM_filter (fun part hmem _ => ?_)
        (fun part hmem hunknown here other hrel => ?_) _ _ (h.addCard _))
      · refine .bind (ih (hknown.below hfound hmem)) fun child => ?_
        cases child with
        | none => exact .pure ()
        | some child => exact fun here other hrel => hrel.attach _ child true
      · have hnone : catalog.find? part = none := by
          simpa [Catalog.contains] using hunknown
        have hends := hknown.below hfound hmem
        -- With no level left the part would be an error whether or not it has a template.
        cases levels with
        | zero => simp [hends (fun _ => part) rfl (catalog.chain_zero _)] at hunknown
        | succ levels => exact start_addPart_succ_of_unknown hrel.maker_eq.1 hnone _ _ _

/-! ## The law -/

/-- As long as nothing is pumped, making a card always comes to an end. It fails just if there is a
chain of parts longer than parts may nest: ids of which each but the last has a template that lists
the next one. Otherwise the next card is made, if the id has a template. And unless such a chain
ends with an id that has none, ids without a template are passed over wherever they are listed: the
answer and the engine after it are those of the catalog that is pruned of them. -/
theorem creation_fails_exactly_if_parts_nest_too_deep (h : engine.Arises)
    (hfactory : engine.factory = some (.ofCatalog catalog)) (hquiet : Quiet engine settle)
    (id : String) :
    ∃ outcome after, (createCard settle id).start engine = some (outcome, after) ∧
      ((∃ fault, outcome = .error (.invalidTemplate fault)) ↔
        ∃ ids, ids 0 = id ∧ catalog.Chain (partLimit + 1) ids) ∧
      (∀ error, outcome = .error error →
        ∃ part, error = .invalidTemplate (.partsTooDeep part partLimit)) ∧
      (∀ made, outcome = .ok made →
        made = if catalog.contains id then some engine.forest.next else none) ∧
      (catalog.EndsKnown (partLimit + 1) id →
        (createCard settle id).start (engine.refitted (.ofCatalog catalog.pruned)) =
          some (outcome, after.refitted (.ofCatalog catalog.pruned))) := by
  have hpruning : Pruning catalog settle engine (engine.refitted (.ofCatalog catalog.pruned)) :=
    ⟨hfactory, hquiet, rfl⟩
  obtain ⟨after, hstart, -, -⟩ := expands settle (partLimit + 1) id engine h hquiet
  rw [hpruning.maker_eq.1] at hstart
  refine ⟨_, after, hstart, ?_, fun error herror => ?_, fun made hmade => ?_, fun hknown => ?_⟩
  · rw [← Catalog.nests_iff]
    unfold Factory.answer Factory.verdict
    cases hexcess : (Factory.ofCatalog catalog).excess? (partLimit + 1) id with
    | none => simp [Factory.excess?_eq_none_iff.1 hexcess]
    | some part => simp [Factory.nests_of_excess? hexcess]
  · unfold Factory.answer Factory.verdict at herror
    split at herror
    next part _ => exact ⟨part, (Except.error.inj herror).symm⟩
    next => cases herror
  · unfold Factory.answer Factory.verdict at hmade
    split at hmade
    next => cases hmade
    next =>
      rw [← Except.ok.inj hmade, Catalog.knows_ofCatalog]
  · -- The run with the pruned catalog ends as this one does, and in the engine that goes with it.
    have hends := mirrors_assemble settle hknown _ _ hpruning
    rw [hstart] at hends
    unfold createCard
    generalize (assemble settle (partLimit + 1) id).start
      (engine.refitted (.ofCatalog catalog.pruned)) = ending at hends ⊢
    cases hends with
    | ended _ hrel => rw [hrel.other]

/-- Stairs of nine steps, each of them a part of the one before; the last leads to a step that is
missing. -/
def stairs : Catalog := .ofList <| (List.range (partLimit + 1)).map fun step =>
  { id := toString step, category := .item, parts := [toString (step + 1)] }

/-- An engine that makes stairs and does not pump by itself. -/
def stairwell : Engine := new { autoPump := false } (some (.ofCatalog stairs))

theorem reachable_stairwell : stairwell.Reachable :=
  reachable_new _ (Factory.makesFresh_ofCatalog stairs)

/-- From the first step on, the missing one is too deep; from the second on, it is passed over. -/
theorem missing_steps_are_passed_over :
    (∃ part after, (createCard settleInside "0").start stairwell =
      some (.error (.invalidTemplate (.partsTooDeep part partLimit)), after)) ∧
      ∃ after, (createCard settleInside "1").start stairwell = some (.ok (some ⟨0⟩), after) ∧
        (createCard settleInside "1").start (stairwell.refitted (.ofCatalog stairs.pruned)) =
          some (.ok (some ⟨0⟩), after.refitted (.ofCatalog stairs.pruned)) := by
  have hdeep : (Factory.ofCatalog stairs).excess? (partLimit + 1) "0" = some "9" := by
    decide +kernel
  have hshallow : (Factory.ofCatalog stairs).excess? (partLimit + 1) "1" = none := by
    decide +kernel
  constructor
  · obtain ⟨outcome, after, hstart, hfails, hfault, -⟩ :=
      creation_fails_exactly_if_parts_nest_too_deep reachable_stairwell.arises rfl (.inl rfl) "0"
    obtain ⟨fault, rfl⟩ := hfails.2 (Catalog.nests_iff.1 (Factory.nests_of_excess? hdeep))
    obtain ⟨part, hpart⟩ := hfault _ rfl
    exact ⟨part, after, hpart ▸ hstart⟩
  · obtain ⟨outcome, after, hstart, hfails, hfault, hmade, hpruned⟩ :=
      creation_fails_exactly_if_parts_nest_too_deep reachable_stairwell.arises rfl (.inl rfl) "1"
    have hnone : ¬ ∃ ids : Nat → String, ids 0 = "1" ∧ stairs.Chain (partLimit + 1) ids :=
      fun hchain => Factory.excess?_eq_none_iff.1 hshallow (Catalog.nests_iff.2 hchain)
    obtain rfl : outcome = .ok (some ⟨0⟩) := by
      cases outcome with
      | error error =>
        obtain ⟨part, rfl⟩ := hfault error rfl
        exact absurd (hfails.1 ⟨_, rfl⟩) hnone
      | ok made =>
        have hfirst : stairs.contains "1" = true := by decide +kernel
        rw [hmade made rfl, if_pos hfirst]
        rfl
    exact ⟨after, hstart, hpruned fun ids hfirst hchain => absurd ⟨ids, hfirst, hchain⟩ hnone⟩

/-- Parts without a template are not passed over if they come too deep. -/
theorem missing_steps_can_be_too_deep :
    ¬ ∀ (engine : Engine) (catalog : Catalog) (invoke : Invoker) (id : String), engine.Reachable →
      engine.factory = some (.ofCatalog catalog) → engine.config.autoPump = false →
      ((∃ fault after, (perform invoke (.createCard id)).start engine =
          some (.error (.invalidTemplate fault), after)) ↔
        ∃ ids : Nat → String, ids 0 = id ∧ catalog.Chain (partLimit + 1) ids ∧
          catalog.contains (ids (partLimit + 1)) = true) := by
  intro hpassedOver
  have hdeep : (Factory.ofCatalog stairs).excess? (partLimit + 1) "0" = some "9" := by
    decide +kernel
  have hpruned : (Factory.ofCatalog stairs.pruned).excess? (partLimit + 1) "0" = none := by
    decide +kernel
  obtain ⟨after, hstart, -⟩ := expands (Engine.settle fun _ _ => .never) (partLimit + 1) "0"
    stairwell reachable_stairwell.arises (.inr ⟨.inl rfl, _, rfl⟩)
  have hanswer : stairwell.maker.answer stairwell.forest.next (partLimit + 1) "0" =
      .error (.invalidTemplate (.partsTooDeep "9" partLimit)) := by
    unfold Factory.answer
    exact congrArg (Factory.verdict · _) hdeep
  obtain ⟨ids, hfirst, hchain, hlast⟩ :=
    (hpassedOver stairwell stairs (fun _ _ => .never) "0" reachable_stairwell rfl rfl).1
      ⟨_, after, by
        show (Answer.card <$> createCard _ _).start stairwell = _
        unfold createCard
        rw [start_map, hstart, hanswer]
        rfl⟩
  exact Factory.excess?_eq_none_iff.1 hpruned
    (Catalog.nests_iff.2 ⟨ids, hfirst, hchain.pruned hlast⟩)

end Engine

end CardRules
