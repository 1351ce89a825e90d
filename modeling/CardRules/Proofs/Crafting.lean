import CardRules.Proofs.Failure
import CardRules.Proofs.Firing
import CardRules.Proofs.Workshop

/-!
Crafting in a workshop. However often the tool is used, no material is lost and none is doubled:
each torch costs one piece of fuel and one piece of wood, the first ones that lie on the bench, and
when one of the two is used up nothing happens any more.
-/

namespace CardRules.Engine

open EngineM

variable {engine middle after : Engine} {bench tool : Handle} {described : Card}

/-! ## One use of the tool -/

/-- So many torches are crafted: each costs a piece of fuel and a piece of wood, the first ones on
the bench. -/
def Crafts (bench : Handle) (described : Card) (count : Nat) (engine after : Engine) : Prop :=
  ∃ torches : List Handle, torches.length = count ∧
    Exchanges bench (engine.forest.material bench count) torches described engine after

/-- Where the one rule gathers a context or none, that decides what is found. -/
theorem findMatches_of_gather (hrules : engine.rules = [craftTorch])
    {found : Option RuleContext}
    (hgather : craftTorch.gather Random.Generator.chance engine.forest ⟨tool, .use⟩ = pure found) :
    engine.findMatches ⟨tool, .use⟩ = (found.toList.map (Match.mk craftTorch), engine) := by
  have hcandidates : engine.candidates .use = [craftTorch] := by
    unfold candidates rulesFor
    rw [hrules]
    rfl
  unfold findMatches
  rw [hcandidates, run_gatherAll_cons, hgather]
  show (_ ++ [], engine) = _
  rw [List.append_nil]
  rfl

namespace Workshop

/-- Without fuel or without wood, nothing comes of the use of the tool. -/
theorem start_process_of_short (invoke : Invoker) (h : engine.Workshop bench tool described)
    (hdepth : engine.depth = 0) (hdeferred : engine.deferred = [])
    (hshort : engine.forest.stock bench "fuel" = [] ∨ engine.forest.stock bench "wood" = []) :
    (process invoke ⟨tool, .use⟩).start engine = some (.ok (), engine) := by
  have hgather := gather_craftTorch Random.Generator.chance (h.equipped.owner?_eq h.sound)
    h.equipped.fit
  rw [if_pos hshort] at hgather
  have hfind : engine.enter.findMatches ⟨tool, .use⟩ = ([], engine.enter) :=
    @findMatches_of_gather engine.enter tool h.rules _ hgather
  exact start_process_of_findMatches invoke hdepth hdeferred hfind

/-- With fuel and wood, the use of the tool makes a torch. -/
theorem exists_process_of_stocked (invoke : Invoker) (h : engine.Workshop bench tool described)
    (hdepth : engine.depth = 0) (hdeferred : engine.deferred = [])
    {fuel wood : Handle} {moreFuel moreWood : List Handle}
    (hfuel : engine.forest.stock bench "fuel" = fuel :: moreFuel)
    (hwood : engine.forest.stock bench "wood" = wood :: moreWood) :
    ∃ torch served, (process invoke ⟨tool, .use⟩).start engine = some (.ok (), served) ∧
      Exchanges bench [fuel, wood] [torch] described engine served ∧ Concludes engine served := by
  have hgather := gather_craftTorch Random.Generator.chance (h.equipped.owner?_eq h.sound)
    h.equipped.fit
  have hstocked : ¬ (engine.forest.stock bench "fuel" = [] ∨
      engine.forest.stock bench "wood" = []) := by
    simp [hfuel, hwood]
  rw [if_neg hstocked] at hgather
  let context := craftingContext bench tool (engine.forest.findings bench tool)
  have hfind : engine.enter.findMatches ⟨tool, .use⟩ = ([⟨craftTorch, context⟩], engine.enter) :=
    @findMatches_of_gather engine.enter tool h.rules _ hgather
  -- The effects start where the journal says that the rule runs.
  let fired := engine.enter.record (.fired engine.enter.depth context)
  have harises : fired.Arises := .step (.step h.arises .enter) (.fire context)
  have hsame : SameCards engine fired := ⟨rfl, rfl, rfl⟩
  have hfired : fired.depth ≤ 1 := Nat.le_of_eq (congrArg (· + 1) hdepth)
  obtain ⟨torch, after, hcraft, hexchanges, htrails⟩ :=
    (h.moved harises hsame rfl rfl).exists_craft invoke (Nat.succ_ne_zero _) hfuel hwood
  have hleft : Exchanges bench [] [] described after after.leave := by
    have hleave := leave_of_depth (htrails.depth ▸ hfired)
    refine .still (.step hexchanges.arises .leave) ?_ ?_ ?_ bench described
    · rw [hleave]
      exact ⟨rfl, rfl, rfl⟩
    · rw [hleave]
    · rw [hleave]
  have hentered : Exchanges bench [] [] described engine fired :=
    .still harises hsame rfl rfl bench described
  have hknown : ∀ handle ∈ [fuel, wood], engine.forest.contains handle = true := by
    intro handle hmem
    refine h.contains_of_mem_material (show handle ∈ engine.forest.material bench 1 from ?_)
    unfold Forest.material
    rw [hfuel, hwood]
    exact hmem
  refine ⟨torch, after.leave, ?_, ?_, ?_⟩
  · have hcarry : carryOut invoke ⟨craftTorch, context⟩ engine.enter = some (.ok (), after) :=
      hcraft
    rw [start_process, start_thenAlways, start_runRules, hfind, choose_singleton,
      start_runMatches_cons, hcarry]
    rfl
  · exact (hentered.trans hexchanges hknown).thenStill hleft
  · obtain ⟨hdepth', hpumping, hflushed, hqueue⟩ := htrails.concludes hfired hdeferred
    exact ⟨hdepth', hpumping, hflushed, hqueue⟩

/-- To process the use of the tool is to craft a torch, if there is the material for one. -/
theorem exists_process (invoke : Invoker) (h : engine.Workshop bench tool described)
    (hdepth : engine.depth = 0) (hdeferred : engine.deferred = []) :
    ∃ served, (process invoke ⟨tool, .use⟩).start engine = some (.ok (), served) ∧
      Crafts bench described (min 1 (engine.forest.affords bench)) engine served ∧
      Concludes engine served := by
  by_cases hshort : engine.forest.stock bench "fuel" = [] ∨ engine.forest.stock bench "wood" = []
  · have hnone : min 1 (engine.forest.affords bench) = 0 := by
      unfold Forest.affords
      rcases hshort with hfuel | hwood
      · simp [hfuel]
      · simp [hwood]
    refine ⟨engine, h.start_process_of_short invoke hdepth hdeferred hshort, ⟨[], ?_, ?_⟩,
      hdepth, rfl, hdeferred, [], (List.append_nil _).symm,
      fun _ hmem => absurd hmem List.not_mem_nil⟩
    · rw [hnone]
      rfl
    · rw [hnone]
      exact .refl h.arises bench described
  · obtain ⟨hsomeFuel, hsomeWood⟩ := not_or.1 hshort
    obtain ⟨fuel, moreFuel, hfuel⟩ := List.exists_cons_of_ne_nil hsomeFuel
    obtain ⟨wood, moreWood, hwood⟩ := List.exists_cons_of_ne_nil hsomeWood
    obtain ⟨torch, served, hprocess, hexchanges, hconcludes⟩ :=
      h.exists_process_of_stocked invoke hdepth hdeferred hfuel hwood
    have hone : min 1 (engine.forest.affords bench) = 1 := by
      unfold Forest.affords
      rw [hfuel, hwood, List.length_cons, List.length_cons]
      omega
    refine ⟨served, hprocess, ⟨[torch], ?_, ?_⟩, hconcludes⟩
    · rw [hone]
      rfl
    · unfold Forest.material
      rw [hone, hfuel, hwood]
      exact hexchanges

/-- The tool can be used at any time, and its use waits in the queue then. -/
theorem exists_use (invoke : Invoker) (h : engine.Workshop bench tool described)
    (hrest : engine.AtRest) (hqueue : engine.queue = []) :
    ∃ used, (perform invoke (.use tool)).start engine = some (.ok .done, used) ∧
      used.Workshop bench tool described ∧ used.AtRest ∧ used.queue = [⟨tool, .use⟩] ∧
      SameCards engine used ∧ Exchanges bench [] [] described engine used := by
  have hknown := h.contains h.equipped.listed
  have hhands : HandsOut engine (raise · ⟨tool, .use⟩) [⟨tool, .use⟩] () := by
    refine (h.arises.raise ⟨tool, .use⟩).resolve_right ?_
    rintro ⟨error, hrefused, -⟩
    rw [start_raise, if_pos hknown] at hrefused
    cases hrefused
  obtain ⟨used, harises, hdelivers, hinside, hstart⟩ :=
    hhands.ofQuiet (.inr ⟨.inl h.manual, invoke, rfl⟩)
  have hforest : used.forest = engine.forest := by
    rw [start_raise, if_pos hknown] at hinside
    cases hinside
    rw [forest_deliver, Forest.emptied_emit, Forest.emptied_of_outbox h.arises.outbox]
  have hsame : SameCards engine used := by
    refine ⟨hforest, ?_, ?_⟩
    · rw [hdelivers.rest]
    · rw [hdelivers.rest]
  have hstill : Exchanges bench [] [] described engine used :=
    .still harises hsame (by rw [hdelivers.rest]) (by rw [hdelivers.rest]) bench described
  refine ⟨used, ?_, h.exchanges hstill List.not_mem_nil, ⟨?_, ?_, ?_, ?_⟩, ?_, hsame, hstill⟩
  · show (raise (settle invoke) ⟨tool, .use⟩ >>= fun _ => pure Answer.done).start engine = _
    rw [start_bind, hstart]
    rfl
  · rw [hdelivers.rest]
    exact hrest.depth
  · rw [hdelivers.rest]
    exact hrest.pumping
  · rw [hdelivers.deferred, if_pos hrest.depth, hrest.deferred]
    rfl
  · rw [hforest]
    exact hrest.outbox
  · rw [hdelivers.queue, if_pos hrest.depth, hqueue]
    simp [takenOn, h.registered]

section

variable (callbacks : Callbacks) (levels : Nat)

/-- With the use of the tool in the queue, pumps until it is empty craft a torch, if there is the
material for one. -/
theorem exists_pumpsOut (h : engine.Workshop bench tool described) (hrest : engine.AtRest)
    (hwaits : engine.queue = [⟨tool, .use⟩]) :
    ∃ after, PumpsOut (invoker callbacks levels) engine after ∧
      Crafts bench described (min 1 (engine.forest.affords bench)) engine after ∧
      after.Workshop bench tool described ∧ after.AtRest ∧ after.queue = [] := by
  -- A pump takes the use from the queue and processes it.
  let taken := { engine with queue := [] }.record (.taken ⟨tool, .use⟩)
  have hnext : engine.takeNext? = some (⟨tool, .use⟩, taken) := by
    unfold takeNext?
    rw [hwaits]
  let started := { taken with pumping := true }
  have hstarts : started.Arises := .step (.step h.arises (.take hnext)) (.startPump hrest.idle)
  have hsame : SameCards engine started := ⟨rfl, rfl, rfl⟩
  have hready := h.moved hstarts hsame rfl rfl
  obtain ⟨served, hprocess, ⟨torches, hlength, hexchanges⟩, hdepth, -, hdeferred, events, hevents,
    hlinks⟩ := hready.exists_process (invoker callbacks levels) hrest.depth hrest.deferred
  -- What comes of it is ignored.
  have hserved := hready.exchanges hexchanges (hready.tool_not_mem_material _)
  have hignores : ∀ other ∈ served.queue, served.Ignores other := by
    intro other hmem
    rw [hevents] at hmem
    exact hserved.ignores (hlinks other hmem)
  obtain ⟨journal, hpumps⟩ := exists_pumpsOut_of_served callbacks levels hrest h.pumps hnext
    hprocess ⟨hdepth, rfl, hdeferred, hserved.arises.outbox⟩ hexchanges.config hignores
  let after : Engine := { served with pumping := false, queue := [], journal }
  have harises : after.Arises :=
    hpumps.keeps (fun hstep h => h.step (hstep.mono fun _ => False.elim)) h.declarative h.arises
  have hsame' : SameCards served after := ⟨rfl, rfl, rfl⟩
  have hbefore : Exchanges bench [] [] described engine started :=
    .still hstarts hsame rfl rfl bench described
  have hafter : Exchanges bench [] [] described served after :=
    .still harises hsame' rfl rfl bench described
  have hcrafted := hbefore.trans hexchanges fun _ => h.contains_of_mem_material
  exact ⟨after, hpumps, ⟨torches, hlength, hcrafted.thenStill hafter⟩,
    hserved.moved harises hsame' rfl rfl, ⟨hdepth, rfl, hdeferred, harises.outbox⟩, rfl⟩

/-- To use the tool and then pump until the queue is empty is to craft a torch, if there is the
material for one. -/
theorem exists_round (h : engine.Workshop bench tool described) (hrest : engine.AtRest)
    (hqueue : engine.queue = []) :
    ∃ used after,
      (perform (invoker callbacks levels) (.use tool)).start engine = some (.ok .done, used) ∧
      PumpsOut (invoker callbacks levels) used after ∧
      Crafts bench described (min 1 (engine.forest.affords bench)) engine after ∧
      after.Workshop bench tool described ∧ after.AtRest ∧ after.queue = [] := by
  obtain ⟨used, huse, hused, hrested, hwaits, hsame, hstill⟩ :=
    h.exists_use (invoker callbacks levels) hrest hqueue
  obtain ⟨after, hpumps, ⟨torches, hlength, hexchanges⟩, hafter⟩ :=
    hused.exists_pumpsOut callbacks levels hrested hwaits
  rw [hsame.forest] at hlength hexchanges
  have hcrafted := hstill.trans hexchanges fun _ => h.contains_of_mem_material
  exact ⟨used, after, huse, hpumps, ⟨torches, hlength, hcrafted⟩, hafter⟩

end

end Workshop

/-! ## All uses of the tool -/

/-- So many times the tool is used, and each time pumps empty the queue, none of which fails. -/
inductive Rounds (invoke : Invoker) (tool : Handle) : Nat → Engine → Engine → Prop
  | none {engine : Engine} : Rounds invoke tool 0 engine engine
  | round {count : Nat} {engine used here after : Engine}
    (uses : (perform invoke (.use tool)).start engine = some (.ok .done, used))
    (emptied : PumpsOut invoke used here) (rest : Rounds invoke tool count here after) :
    Rounds invoke tool (count + 1) engine after

theorem Rounds.unique {invoke : Invoker} {count : Nat} {other : Engine}
    (h : Rounds invoke tool count engine after) (h' : Rounds invoke tool count engine other) :
    other = after := by
  induction h with
  | none =>
    cases h'
    rfl
  | round hused hemptied _ ih =>
    cases h' with
    | round hused' hemptied' hrest' =>
      obtain ⟨-, rfl⟩ := Prod.mk.inj (Option.some.inj (hused.symm.trans hused'))
      obtain rfl := hemptied.unique hemptied'
      exact ih hrest'

/-- To keep what is not among the first pieces is to drop these. -/
theorem filter_eq_drop {α : Type} {pieces : List α} (hnodup : pieces.Nodup) {keep : α → Bool}
    {count : Nat} (hkeep : ∀ piece ∈ pieces, keep piece = true ↔ piece ∉ pieces.take count) :
    pieces.filter keep = pieces.drop count := by
  have hdisjoint := List.disjoint_take_drop hnodup (Nat.le_refl count)
  have hgone : (pieces.take count).filter keep = [] := by
    rw [List.filter_eq_nil_iff]
    intro piece hmem hkept
    exact (hkeep piece (List.mem_of_mem_take hmem)).1 hkept hmem
  have hleft : (pieces.drop count).filter keep = pieces.drop count := by
    refine List.filter_eq_self.2 fun piece hmem => ?_
    exact (hkeep piece (List.mem_of_mem_drop hmem)).2 fun htaken => hdisjoint htaken hmem
  calc pieces.filter keep
      = (pieces.take count ++ pieces.drop count).filter keep := by rw [List.take_append_drop]
    _ = pieces.drop count := by rw [List.filter_append, hgone, hleft, List.nil_append]

namespace Workshop

variable {first second : Nat}

/-- What is left of a stock is what comes behind the pieces that were taken. -/
theorem stock_crafted (h : engine.Workshop bench tool described)
    (hcrafts : Crafts bench described first engine middle) :
    middle.forest.stock bench "fuel" = (engine.forest.stock bench "fuel").drop first ∧
      middle.forest.stock bench "wood" = (engine.forest.stock bench "wood").drop first := by
  obtain ⟨torches, -, hexchanges⟩ := hcrafts
  rw [hexchanges.stock_eq h.arises h.finished.1, hexchanges.stock_eq h.arises h.finished.2]
  constructor
  · refine filter_eq_drop (h.stock_nodup "fuel") fun piece hmem => ?_
    have hnoWood : piece ∉ (engine.forest.stock bench "wood").take first := fun htaken =>
      h.equipped.ne_of_mem_stock hmem (List.mem_of_mem_take htaken) rfl
    simp [Forest.material, hnoWood]
  · refine filter_eq_drop (h.stock_nodup "wood") fun piece hmem => ?_
    have hnoFuel : piece ∉ (engine.forest.stock bench "fuel").take first := fun htaken =>
      h.equipped.ne_of_mem_stock (List.mem_of_mem_take htaken) hmem rfl
    simp [Forest.material, hnoFuel]

/-- What is crafted in two goes is crafted in one. -/
theorem crafts_add (h : engine.Workshop bench tool described)
    (hcrafts : Crafts bench described first engine middle)
    (hcrafts' : Crafts bench described second middle after) :
    Crafts bench described (first + second) engine after := by
  obtain ⟨hfuel, hwood⟩ := h.stock_crafted hcrafts
  obtain ⟨torches, hlength, hexchanges⟩ := hcrafts
  obtain ⟨others, hlength', hexchanges'⟩ := hcrafts'
  refine ⟨torches ++ others, by rw [List.length_append, hlength, hlength'], ?_⟩
  have hknown : ∀ handle ∈ middle.forest.material bench second,
      engine.forest.contains handle = true := by
    intro handle hmem
    refine h.contains ?_
    unfold Forest.material at hmem
    rw [hfuel, hwood] at hmem
    rcases List.mem_append.1 hmem with htaken | htaken
    · exact (Forest.mem_stock.1 (List.mem_of_mem_drop (List.mem_of_mem_take htaken))).1
    · exact (Forest.mem_stock.1 (List.mem_of_mem_drop (List.mem_of_mem_take htaken))).1
  refine (hexchanges.trans hexchanges' hknown).ofMemIff fun handle => ?_
  unfold Forest.material
  rw [hfuel, hwood, List.take_add, List.take_add]
  simp only [List.mem_append]
  exact or_or_or_comm

/-- Each round makes a torch until there is no fuel or no wood left. -/
theorem exists_rounds (callbacks : Callbacks) (levels : Nat)
    (h : engine.Workshop bench tool described) (hrest : engine.AtRest) (hqueue : engine.queue = [])
    (count : Nat) :
    ∃ after, Rounds (invoker callbacks levels) tool count engine after ∧
      Crafts bench described (min count (engine.forest.affords bench)) engine after ∧
      after.queue = [] := by
  induction count generalizing engine with
  | zero =>
    refine ⟨engine, .none, ⟨[], ?_, ?_⟩, hqueue⟩
    · simp
    · rw [Nat.zero_min]
      exact .refl h.arises bench described
  | succ count ih =>
    obtain ⟨used, here, huse, hpumps, hcrafts, hhere, hrested, hempty⟩ :=
      h.exists_round callbacks levels hrest hqueue
    obtain ⟨after, hrounds, hmore, hqueued⟩ := ih hhere hrested hempty
    refine ⟨after, .round huse hpumps hrounds, ?_, hqueued⟩
    have hleft : min (count + 1) (engine.forest.affords bench) =
        min 1 (engine.forest.affords bench) + min count (here.forest.affords bench) := by
      obtain ⟨hfuel, hwood⟩ := h.stock_crafted hcrafts
      unfold Forest.affords at hfuel hwood ⊢
      rw [hfuel, hwood, List.length_drop, List.length_drop]
      omega
    rw [hleft]
    exact h.crafts_add hcrafts hmore

end Workshop

/-- Crafting conserves materials. As often as the tool is used, with pumps until the queue is empty
each time, as many torches are made as there are uses, or as there is fuel or wood if that is less.
The first pieces of both are off the bench then, but still there, and the registry says the same of
them; the other cards on the bench are as they were, and the torches come behind them. -/
theorem crafting_conserves_materials (callbacks : Callbacks) (levels : Nat) {catalog : Catalog}
    {template : Template} (hreachable : engine.Reachable)
    (hmanual : engine.config.autoPump = false) (hpumps : 0 < engine.config.maxEventsPerPump)
    (hrules : engine.rules = [craftTorch]) (hqueue : engine.queue = [])
    (hfactory : engine.factory = some (.ofCatalog catalog))
    (hknown : catalog.find? "torch" = some template)
    (hfinished : "fuel" ∉ template.tags ∧ "wood" ∉ template.tags)
    (hshallow : ¬ (Factory.ofCatalog catalog).Nests (partLimit + 1) "torch")
    (hregistered : engine.isRegistered tool = true)
    (hequipped : engine.forest.Equipped bench tool) (count : Nat) :
    let made := min count (engine.forest.affords bench)
    let spent := engine.forest.material bench made
    ∃ after torches,
      (∀ ended, Rounds (invoker callbacks levels) tool count engine ended ↔ ended = after) ∧
      after.queue = [] ∧
      (∀ piece ∈ spent, after.forest.contains piece = true ∧ after.forest.owner? piece = none ∧
        after.registry.keyOf? piece = engine.registry.keyOf? piece) ∧
      after.forest.children bench = (engine.forest.children bench).filter (· ∉ spent) ++ torches ∧
      torches.length = made ∧
      ∀ torch ∈ torches, engine.forest.contains torch = false ∧
        ∃ card, after.forest.get? torch = some card ∧ card.id = "torch" ∧
          card.plain = .ofTemplate template := by
  have hmaker : engine.maker = .ofCatalog catalog := by simp [maker, hfactory]
  have hnests : engine.maker.excess? (partLimit + 1) "torch" = none := by
    rw [hmaker, Option.eq_none_iff_forall_not_mem]
    exact fun part hpart => hshallow (Factory.nests_of_excess? hpart)
  have hmakes : engine.maker.make? "torch" = some (.ofTemplate template) := by
    simp [hmaker, Factory.ofCatalog, hknown]
  have htags : (Card.ofTemplate template).hasTag "fuel" = false ∧
      (Card.ofTemplate template).hasTag "wood" = false := by
    simpa [Card.ofTemplate, Card.hasTag, SortedSet.contains_ofList] using hfinished
  have hworkshop : engine.Workshop bench tool (.ofTemplate template) :=
    ⟨hreachable.arises, hmanual, hpumps, hrules, by rw [hfactory]; rfl, hmakes, hnests, htags,
      hregistered, hequipped⟩
  obtain ⟨after, hrounds, ⟨torches, hlength, hexchanges⟩, hempty⟩ :=
    hworkshop.exists_rounds callbacks levels hreachable.atRest hqueue count
  have hid : template.id = "torch" := by
    simpa using List.find?_some hknown
  refine ⟨after, torches, fun ended => ⟨hrounds.unique, ?_⟩, hempty, fun piece hmem => ?_,
    hexchanges.cards.children, hlength, fun torch hmem => ?_⟩
  · rintro rfl
    exact hrounds
  · have hpiece := hworkshop.contains_of_mem_material hmem
    refine ⟨hexchanges.cards.contains hpiece, ?_, hexchanges.keys piece hpiece⟩
    rw [hexchanges.cards.owner piece hpiece, if_pos hmem]
  · obtain ⟨hnew, hplain⟩ := hexchanges.new torch hmem
    obtain ⟨card, hcard, heq⟩ := Option.map_eq_some_iff.1 hplain
    have hcardId : card.id = template.id := congrArg Card.id heq
    exact ⟨hnew, card, hcard, hcardId.trans hid, heq⟩

/-- A workbench with two pieces of resin, a stick, and a knife among them. Its children are attached
while they are not registered, so no event waits in the queue afterwards. -/
def workbench : Program Unit :=
  .perform (.registerRule craftTorch) fun _ =>
  .perform (.addCard { id := "workbench", category := .building }) fun _ =>
  .perform (.addCard { id := "resin", category := .resource, tags := .ofList ["fuel"] }) fun _ =>
  .perform (.addCard
    { id := "knife", category := .tool, tags := .ofList ["crafting-tool"] }) fun _ =>
  .perform (.addCard { id := "resin", category := .resource, tags := .ofList ["fuel"] }) fun _ =>
  .perform (.addCard { id := "stick", category := .resource, tags := .ofList ["wood"] }) fun _ =>
  .perform (.unregisterCard ⟨1⟩) fun _ =>
  .perform (.unregisterCard ⟨2⟩) fun _ =>
  .perform (.unregisterCard ⟨3⟩) fun _ =>
  .perform (.unregisterCard ⟨4⟩) fun _ =>
  .perform (.attach ⟨0⟩ ⟨1⟩ false) fun _ =>
  .perform (.attach ⟨0⟩ ⟨2⟩ false) fun _ =>
  .perform (.attach ⟨0⟩ ⟨3⟩ false) fun _ =>
  .perform (.attach ⟨0⟩ ⟨4⟩ false) fun _ =>
  .perform (.registerCard ⟨2⟩) fun _ => .done ()

theorem asksOnly_workbench : workbench.AsksOnly Operation.BringsFresh :=
  ⟨trivial, fun _ => ⟨⟨rfl, rfl, rfl, rfl, rfl⟩, fun _ => ⟨⟨rfl, rfl, rfl, rfl, rfl⟩, fun _ =>
    ⟨⟨rfl, rfl, rfl, rfl, rfl⟩, fun _ => ⟨⟨rfl, rfl, rfl, rfl, rfl⟩, fun _ =>
      ⟨⟨rfl, rfl, rfl, rfl, rfl⟩, fun _ => ⟨trivial, fun _ => ⟨trivial, fun _ => ⟨trivial, fun _ =>
        ⟨trivial, fun _ => ⟨trivial, fun _ => ⟨trivial, fun _ => ⟨trivial, fun _ => ⟨trivial,
          fun _ => ⟨trivial, fun _ => trivial⟩⟩⟩⟩⟩⟩⟩⟩⟩⟩⟩⟩⟩⟩⟩

/-- However often the knife is used, the stick is enough for one torch only. -/
theorem stick_makes_one_torch :
    ∃ engine after torch, engine.Reachable ∧ engine.forest.Equipped ⟨0⟩ ⟨2⟩ ∧
      Rounds (invoker moving 0) ⟨2⟩ 3 engine after ∧
      after.forest.children ⟨0⟩ = [⟨2⟩, ⟨3⟩, torch] ∧
      after.forest.owner? ⟨1⟩ = none ∧ after.forest.owner? ⟨4⟩ = none := by
  have hfacts : (run moving 0 workbench (new { autoPump := false } torches)).map
      (fun (result, engine) => ((result.isOk, decide (engine.forest.Equipped ⟨0⟩ ⟨2⟩)),
        (engine.config, engine.queue.isEmpty, engine.isRegistered ⟨2⟩),
        engine.forest.children ⟨0⟩, engine.forest.material ⟨0⟩ 1,
        min 3 (engine.forest.affords ⟨0⟩))) =
      some ((true, true), ({ autoPump := false }, true, true), [⟨1⟩, ⟨2⟩, ⟨3⟩, ⟨4⟩],
        [⟨1⟩, ⟨4⟩], 1) := by
    decide +kernel
  have hrules : (run moving 0 workbench (new { autoPump := false } torches)).map
      (fun (_, engine) => engine.rules) = some [craftTorch] := rfl
  have hfactory : (run moving 0 workbench (new { autoPump := false } torches)).map
      (fun (_, engine) => engine.factory) = some (some torches) := rfl
  obtain ⟨⟨result, engine⟩, hrun, hvalues⟩ := Option.map_eq_some_iff.1 hfacts
  simp only [hrun, Option.map_some, Option.some.injEq] at hrules hfactory
  simp only [Prod.mk.injEq, decide_eq_true_eq] at hvalues
  obtain ⟨⟨hok, hequipped⟩, ⟨hconfig, hqueue, hregistered⟩, hchildren, hmaterial, hmade⟩ := hvalues
  have hreachable : engine.Reachable :=
    reachable_of_isOk askOnly_moving asksOnly_workbench makesFresh_torches hrun hok
  obtain ⟨after, made, hrounds, -, hspent, hafter, hlength, -⟩ :=
    crafting_conserves_materials moving 0 hreachable (by rw [hconfig]) (by rw [hconfig]; decide)
      hrules (List.isEmpty_iff.1 hqueue) hfactory rfl (by decide) (not_nests_torches "torch")
      hregistered hequipped 3
  rw [hmade, hmaterial] at hspent
  rw [hmade, hmaterial, hchildren] at hafter
  rw [hmade] at hlength
  obtain ⟨torch, rfl⟩ := List.length_eq_one_iff.1 hlength
  exact ⟨engine, after, torch, hreachable, hequipped, (hrounds after).2 rfl, hafter,
    (hspent ⟨1⟩ (by decide)).2.1, (hspent ⟨4⟩ (by decide)).2.1⟩

end CardRules.Engine
