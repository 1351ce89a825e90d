import CardRules.Proofs.Emptying
import CardRules.Proofs.Exchange

/-!
A workshop: a bench with a tool, fuel and wood, and one rule, which makes a torch out of the first
piece of fuel and the first piece of wood when the tool is used. To craft a torch is an exchange,
and the workshop is one afterwards too.
-/

namespace CardRules

open EngineM

/-! ## The rule -/

/-- The tool that is used stands on a bench with fuel and wood: one piece of each goes, and a torch
comes. -/
def craftTorch : Rule where
  name := "craft_torch"
  trigger := .use
  containerDistance := 1
  requirements := [
    .has { scope := .source, filter := .tag "crafting-tool" },
    .has { scope := .children, filter := .tag "fuel" },
    .has { scope := .children, filter := .tag "wood" }]
  effects := [
    .remove { filter := .tag "fuel", take := some 1 },
    .remove { filter := .tag "wood", take := some 1 },
    .create ["torch"] 1]
  policy := { stopOnSuccess := true }

/-- Whether a card of the forest has a tag. -/
def Forest.tagged (forest : Forest) (tag : String) (handle : Handle) : Bool :=
  (forest.get? handle).any (·.hasTag tag)

/-- The children of a card that have a tag, in order. -/
def Forest.stock (forest : Forest) (bench : Handle) (tag : String) : List Handle :=
  (forest.children bench).filter (forest.tagged tag)

/-- All that the rule finds: the tool, the fuel and the wood. -/
def Forest.findings (forest : Forest) (bench tool : Handle) : List Handle :=
  tool :: forest.stock bench "fuel" ++ forest.stock bench "wood"

/-- The first pieces of fuel and of wood on a bench, so many of each. -/
def Forest.material (forest : Forest) (bench : Handle) (count : Nat) : List Handle :=
  (forest.stock bench "fuel").take count ++ (forest.stock bench "wood").take count

/-- How many torches there is material for on a bench. -/
def Forest.affords (forest : Forest) (bench : Handle) : Nat :=
  min (forest.stock bench "fuel").length (forest.stock bench "wood").length

theorem Forest.mem_stock {forest : Forest} {bench child : Handle} {tag : String} :
    child ∈ forest.stock bench tag ↔
      child ∈ forest.children bench ∧ forest.tagged tag child = true := List.mem_filter

theorem Forest.filter_stock (forest : Forest) (bench : Handle) (tag : String) :
    (forest.stock bench tag).filter (forest.tagged tag) = forest.stock bench tag :=
  List.filter_eq_self.2 fun _ hmem => (mem_stock.1 hmem).2

/-- A bench with a tool on it that is no material. No child of the bench is both fuel and wood, and
none of the material is intrinsic. -/
structure Forest.Equipped (forest : Forest) (bench tool : Handle) : Prop where
  listed : tool ∈ forest.children bench
  fit : forest.tagged "crafting-tool" tool = true
  lasting : forest.tagged "fuel" tool = false ∧ forest.tagged "wood" tool = false
  apart : ∀ child ∈ forest.children bench, forest.tagged "fuel" child = true →
    forest.tagged "wood" child = false
  loose : ∀ child ∈ forest.children bench,
    forest.tagged "fuel" child = true ∨ forest.tagged "wood" child = true →
      ¬ forest.Marks bench child

instance (forest : Forest) (parent child : Handle) : Decidable (forest.Marks parent child) :=
  decidable_of_iff ((forest.get? parent).any (·.intrinsic.contains child) = true) <| by
    unfold Forest.Marks
    cases forest.get? parent <;> simp

theorem Forest.equipped_iff {forest : Forest} {bench tool : Handle} :
    forest.Equipped bench tool ↔
      tool ∈ forest.children bench ∧ forest.tagged "crafting-tool" tool = true ∧
      (forest.tagged "fuel" tool = false ∧ forest.tagged "wood" tool = false) ∧
      (∀ child ∈ forest.children bench, forest.tagged "fuel" child = true →
        forest.tagged "wood" child = false) ∧
      ∀ child ∈ forest.children bench,
        forest.tagged "fuel" child = true ∨ forest.tagged "wood" child = true →
          ¬ forest.Marks bench child :=
  ⟨fun h => ⟨h.listed, h.fit, h.lasting, h.apart, h.loose⟩,
    fun ⟨listed, fit, lasting, apart, loose⟩ => ⟨listed, fit, lasting, apart, loose⟩⟩

instance (forest : Forest) (bench tool : Handle) : Decidable (forest.Equipped bench tool) :=
  decidable_of_iff _ Forest.equipped_iff.symm

section

variable {σ : Type} (toss : Float → StateM σ Bool) {forest : Forest} {bench tool : Handle}

/-- Without a cut, the cards with a tag are those of the scope that have it. -/
theorem Selector.select_tagged (forest : Forest) (selection : Selection) (scope : Scope)
    {tag : String} (htag : tag ≠ "") :
    Selector.select { scope, filter := .tag tag } forest selection =
      (Selector.candidates { scope } forest selection).filter (forest.tagged tag) := by
  have haccepts : (Filter.tag tag).accepts = (·.hasTag tag) := by
    funext card
    simp [Filter.accepts, htag]
  have hadmits : Selector.admits { scope, filter := .tag tag } forest = forest.tagged tag := by
    funext handle
    unfold Selector.admits Forest.tagged
    rw [haccepts]
  unfold Selector.select
  rw [hadmits]
  rfl

/-- A requirement that something is there hands it over. -/
theorem Rule.gatherMatched_has (forest : Forest) (selection : Selection) (selector : Selector)
    (rest : List Requirement) :
    gatherMatched toss forest selection (.has selector :: rest) =
      if selector.select forest selection = [] then pure none
      else gatherMatched toss forest { selection with
        matched := selection.matched ++ selector.select forest selection } rest := by
  rw [gatherMatched]
  unfold Requirement.has
  rw [Requirement.evaluate, pure_bind]
  cases selector.select forest selection with
  | nil => rfl
  | cons handle others => simp [Requirement.withinBounds]

/-- What the rule runs with: the tool, the bench, and all that was found. -/
def craftingContext (bench tool : Handle) (matched : List Handle) : RuleContext where
  rule := "craft_torch"
  event := .use
  source := tool
  container := bench
  matched := matched
  maxDepth := none

/-- The rule matches just if there is fuel and wood. -/
theorem gather_craftTorch (howner : forest.owner? tool = some bench)
    (hfit : forest.tagged "crafting-tool" tool = true) :
    craftTorch.gather toss forest ⟨tool, .use⟩ =
      pure (if forest.stock bench "fuel" = [] ∨ forest.stock bench "wood" = [] then none
        else some (craftingContext bench tool (forest.findings bench tool))) := by
  have hcontainer : forest.containerOf tool 1 = bench := by
    simp [Forest.containerOf, Forest.climb, howner]
  have htool (selection : Selection) (hsource : selection.source = tool) :
      Selector.select { scope := .source, filter := .tag "crafting-tool" } forest selection =
        [tool] := by
    rw [Selector.select_tagged forest selection .source (by decide)]
    simp [Selector.candidates, hsource, hfit]
  have hstock (tag : String) (htag : tag ≠ "") (selection : Selection)
      (hbench : selection.container = bench) :
      Selector.select { scope := .children, filter := .tag tag } forest selection =
        forest.stock bench tag := by
    rw [Selector.select_tagged forest selection .children htag]
    simp [Selector.candidates, hbench, Forest.stock]
  unfold Rule.gather craftTorch
  simp only [hcontainer, Rule.gatherMatched_has]
  rw [htool _ rfl, hstock "fuel" (by decide) _ rfl, hstock "wood" (by decide) _ rfl]
  by_cases hfuel : forest.stock bench "fuel" = []
  · simp [hfuel]
  by_cases hwood : forest.stock bench "wood" = []
  · simp [hwood, hfuel]
  · simp [hfuel, hwood, Rule.gatherMatched, craftingContext, Forest.findings]

end

/-! ## The bench after an exchange -/

theorem Forest.tagged_eq (forest : Forest) (tag : String) (handle : Handle) :
    forest.tagged tag handle = ((forest.get? handle).map Card.plain).any (·.hasTag tag) := by
  unfold tagged
  cases forest.get? handle <;> rfl

namespace Forest.Equipped

variable {forest : Forest} {bench tool : Handle} (h : forest.Equipped bench tool)

include h

theorem owner?_eq (hsound : forest.Sound) : forest.owner? tool = some bench :=
  hsound.mem_children_iff.1 h.listed

/-- No piece of fuel is a piece of wood. -/
theorem ne_of_mem_stock {fuel wood : Handle} (hfuel : fuel ∈ forest.stock bench "fuel")
    (hwood : wood ∈ forest.stock bench "wood") : fuel ≠ wood := by
  rintro rfl
  obtain ⟨hlisted, hburns⟩ := Forest.mem_stock.1 hfuel
  have hnot := h.apart fuel hlisted hburns
  rw [(Forest.mem_stock.1 hwood).2] at hnot
  cases hnot

/-- The tool is not among the materials. -/
theorem tool_not_mem_stock :
    tool ∉ forest.stock bench "fuel" ∧ tool ∉ forest.stock bench "wood" := by
  constructor
  · intro hmem
    have htagged := (Forest.mem_stock.1 hmem).2
    rw [h.lasting.1] at htagged
    cases htagged
  · intro hmem
    have htagged := (Forest.mem_stock.1 hmem).2
    rw [h.lasting.2] at htagged
    cases htagged

/-- Of all that the rule finds, the fuel is what has the tag of fuel. -/
theorem filter_fuel :
    (forest.findings bench tool).filter (forest.tagged "fuel") = forest.stock bench "fuel" := by
  have hwood : (forest.stock bench "wood").filter (forest.tagged "fuel") = [] := by
    rw [List.filter_eq_nil_iff]
    intro child hmem hburns
    have hlisted := (Forest.mem_stock.1 hmem).1
    exact h.ne_of_mem_stock (Forest.mem_stock.2 ⟨hlisted, hburns⟩) hmem rfl
  unfold Forest.findings
  rw [List.cons_append, List.filter_cons, h.lasting.1, List.filter_append, forest.filter_stock,
    hwood]
  simp

theorem filter_wood :
    (forest.findings bench tool).filter (forest.tagged "wood") = forest.stock bench "wood" := by
  have hfuel : (forest.stock bench "fuel").filter (forest.tagged "wood") = [] := by
    rw [List.filter_eq_nil_iff]
    intro child hmem hgrown
    have hlisted := (Forest.mem_stock.1 hmem).1
    exact h.ne_of_mem_stock hmem (Forest.mem_stock.2 ⟨hlisted, hgrown⟩) rfl
  unfold Forest.findings
  rw [List.cons_append, List.filter_cons, h.lasting.2, List.filter_append, hfuel,
    forest.filter_stock]
  simp

/-- Everything that the rule finds is on the bench. -/
theorem mem_children {child : Handle}
    (hmem : child ∈ forest.findings bench tool) : child ∈ forest.children bench := by
  simp only [Forest.findings, List.cons_append, List.mem_cons, List.mem_append] at hmem
  rcases hmem with rfl | hfuel | hwood
  · exact h.listed
  · exact (Forest.mem_stock.1 hfuel).1
  · exact (Forest.mem_stock.1 hwood).1

end Forest.Equipped

namespace Engine

variable {engine middle after : Engine} {bench tool : Handle} {spent made : List Handle}
  {described : Card}

section

variable (h : Exchanges bench spent made described engine after)

include h

theorem Exchanges.tagged_eq {handle : Handle} (hknown : engine.forest.contains handle = true)
    (tag : String) : after.forest.tagged tag handle = engine.forest.tagged tag handle := by
  rw [Forest.tagged_eq, h.cards.plain handle hknown, ← Forest.tagged_eq]

theorem Exchanges.tagged_made {handle : Handle} (hmem : handle ∈ made) (tag : String) :
    after.forest.tagged tag handle = described.hasTag tag := by
  rw [Forest.tagged_eq, (h.new handle hmem).2]
  rfl

/-- What is not made of a material leaves the stock of it to what was there and is not spent. -/
theorem Exchanges.stock_eq (horigin : engine.Arises) {tag : String}
    (hother : described.hasTag tag = false) :
    after.forest.stock bench tag = (engine.forest.stock bench tag).filter (· ∉ spent) := by
  have hmade : made.filter (after.forest.tagged tag) = [] := by
    rw [List.filter_eq_nil_iff]
    intro handle hmem
    rw [h.tagged_made hmem, hother]
    exact Bool.false_ne_true
  have hsound := horigin.listed.linked.sound
  unfold Forest.stock
  rw [h.cards.children, List.filter_append, hmade, List.append_nil, List.filter_filter,
    List.filter_filter]
  refine List.filter_congr fun child hmem => ?_
  have hknown := Forest.contains_of_owner? (hsound.mem_children_iff.1 hmem)
  rw [h.tagged_eq hknown, Bool.and_comm]

end

/-- A workshop in which torches can be made: nothing pumps by itself, the one rule makes torches,
and a torch is described and no material for others. -/
structure Workshop (engine : Engine) (bench tool : Handle) (described : Card) : Prop where
  arises : engine.Arises
  manual : engine.config.autoPump = false
  pumps : 0 < engine.config.maxEventsPerPump
  rules : engine.rules = [craftTorch]
  supplied : engine.factory.isSome = true
  makes : engine.maker.make? "torch" = some described
  nests : engine.maker.excess? (partLimit + 1) "torch" = none
  finished : described.hasTag "fuel" = false ∧ described.hasTag "wood" = false
  registered : engine.isRegistered tool = true
  equipped : engine.forest.Equipped bench tool

namespace Workshop

theorem sound (h : engine.Workshop bench tool described) : engine.forest.Sound :=
  h.arises.listed.linked.sound

theorem contains (h : engine.Workshop bench tool described) {child : Handle}
    (hmem : child ∈ engine.forest.children bench) : engine.forest.contains child = true :=
  Forest.contains_of_owner? (h.sound.mem_children_iff.1 hmem)

/-- A workshop stays one as long as its tool is there. -/
theorem exchanges (h : engine.Workshop bench tool described)
    (hexchanges : Exchanges bench spent made described engine after) (htool : tool ∉ spent) :
    after.Workshop bench tool described := by
  have hmaker : after.maker = engine.maker := by
    unfold maker
    rw [hexchanges.factory]
  have hequipped := h.equipped
  have hknown := h.contains hequipped.listed
  -- A child is one from before, or it was made, and is no material then.
  have hchild {child : Handle} (hmem : child ∈ after.forest.children bench) :
      child ∈ engine.forest.children bench ∨ child ∈ made := by
    rw [hexchanges.cards.children] at hmem
    exact (List.mem_append.1 hmem).imp_left fun hkept => (List.mem_filter.1 hkept).1
  have hmade {child : Handle} (hmem : child ∈ made) :
      after.forest.tagged "fuel" child = false ∧ after.forest.tagged "wood" child = false := by
    rw [hexchanges.tagged_made hmem, hexchanges.tagged_made hmem]
    exact h.finished
  refine ⟨hexchanges.arises, ?_, ?_, ?_, ?_, ?_, ?_, h.finished, ?_, ?_, ?_, ?_, ?_, ?_⟩
  · rw [hexchanges.config, h.manual]
  · rw [hexchanges.config]
    exact h.pumps
  · rw [hexchanges.rules, h.rules]
  · rw [hexchanges.factory, h.supplied]
  · rw [hmaker, h.makes]
  · rw [hmaker, h.nests]
  · rw [isRegistered_eq, hexchanges.keys tool hknown]
    exact h.registered
  · rw [hexchanges.cards.children]
    exact List.mem_append_left _ (List.mem_filter.2 ⟨hequipped.listed, decide_eq_true htool⟩)
  · rw [hexchanges.tagged_eq hknown, hequipped.fit]
  · rw [hexchanges.tagged_eq hknown, hexchanges.tagged_eq hknown]
    exact hequipped.lasting
  · intro child hmem hfuel
    rcases hchild hmem with hold | hnew
    · rw [hexchanges.tagged_eq (h.contains hold)] at hfuel ⊢
      exact hequipped.apart child hold hfuel
    · exact (hmade hnew).2
  · intro child hmem hmaterial hmarks
    rcases hchild hmem with hold | hnew
    · have hknown := h.contains hold
      rw [hexchanges.tagged_eq hknown, hexchanges.tagged_eq hknown] at hmaterial
      exact hequipped.loose child hold hmaterial (hexchanges.cards.marks child hmarks)
    · rw [(hmade hnew).1, (hmade hnew).2] at hmaterial
      exact absurd hmaterial (by decide)

/-! ## One torch -/

theorem selected_take_one (engine : Engine) (bench tool : Handle) (matched : List Handle)
    {tag : String} (htag : tag ≠ "") :
    selected { filter := .tag tag, take := some 1 } (craftingContext bench tool matched) engine =
      (matched.filter (engine.forest.tagged tag)).take 1 := by
  have hall := Selector.select_tagged engine.forest
    (craftingContext bench tool matched).selection .matched htag
  unfold selected
  show (Selector.select { scope := .matched, filter := .tag tag } engine.forest
    (craftingContext bench tool matched).selection).take 1 = _
  rw [hall]
  rfl

/-- To remove a material that was found is to spend the first piece of it. -/
theorem exists_run_remove (invoke : Invoker) (h : engine.Workshop bench tool described)
    (hdepth : engine.depth ≠ 0) {tag : String} (htag : tag = "fuel" ∨ tag = "wood")
    {matched rest : List Handle} {child : Handle}
    (hfound : matched.filter (engine.forest.tagged tag) = child :: rest)
    (hchild : child ∈ engine.forest.children bench) :
    ∃ after, (Effect.run invoke (craftingContext bench tool matched)
        (.remove { filter := .tag tag, take := some 1 })).start engine = some (.ok (), after) ∧
      Exchanges bench [child] [] described engine after ∧
      after.Workshop bench tool described ∧ Trails engine after := by
  have htagged : engine.forest.tagged tag child = true := by
    have hmem : child ∈ matched.filter (engine.forest.tagged tag) := by
      rw [hfound]
      exact List.mem_cons_self
    exact (List.mem_filter.1 hmem).2
  have hmaterial : engine.forest.tagged "fuel" child = true ∨
      engine.forest.tagged "wood" child = true := by
    rcases htag with rfl | rfl
    · exact .inl htagged
    · exact .inr htagged
  -- The tool is no material, so it is not what goes.
  have htool : tool ∉ [child] := by
    obtain ⟨hfuel, hwood⟩ := h.equipped.tool_not_mem_stock
    rw [List.mem_singleton]
    rintro rfl
    rcases hmaterial with hburns | hgrown
    · exact hfuel (Forest.mem_stock.2 ⟨hchild, hburns⟩)
    · exact hwood (Forest.mem_stock.2 ⟨hchild, hgrown⟩)
  have hnonempty : tag ≠ "" := by
    rcases htag with rfl | rfl <;> decide
  have hone : selected { filter := .tag tag, take := some 1 }
      (craftingContext bench tool matched) engine = [child] := by
    rw [selected_take_one engine bench tool matched hnonempty, hfound]
    rfl
  obtain ⟨after, hdetach, hexchanges, htrails⟩ := exists_detach h.arises hdepth hchild
    (h.equipped.loose child hchild hmaterial) described
  have hdone : (discard (detach settleInside child false)).start engine = some (.ok (), after) := by
    rw [start_discard, hdetach]
    rfl
  refine ⟨after, ?_, hexchanges, h.exchanges hexchanges htool, htrails⟩
  rw [Effect.run, start_get_bind, hone, start_forM_cons _ child [] hdone]
  rfl

theorem exists_run_create (invoke : Invoker) (h : engine.Workshop bench tool described)
    (hdepth : engine.depth ≠ 0) (matched : List Handle) :
    ∃ torch after, (Effect.run invoke (craftingContext bench tool matched)
        (.create ["torch"] 1)).start engine = some (.ok (), after) ∧
      Exchanges bench [] [torch] described engine after ∧ Trails engine after := by
  have hbench : engine.forest.contains bench = true :=
    h.sound.contains_owner (h.equipped.owner?_eq h.sound)
  obtain ⟨torch, after, hbring, hexchanges, htrails⟩ :=
    exists_bring h.arises hdepth hbench h.makes h.nests
  refine ⟨torch, after, ?_, hexchanges, htrails⟩
  have hdone : (EngineM.times (bring bench "torch") 1).start engine = some (.ok (), after) := by
    rw [EngineM.times, start_bind, hbring]
    rfl
  rw [run_create invoke _ ["torch"] 1 h.supplied]
  exact start_forM_cons (fun id => EngineM.times (bring bench id) 1) "torch" [] hdone

/-- The rule takes the first piece of fuel and the first piece of wood, and makes a torch. -/
theorem exists_craft (invoke : Invoker) (h : engine.Workshop bench tool described)
    (hdepth : engine.depth ≠ 0) {fuel wood : Handle} {moreFuel moreWood : List Handle}
    (hfuel : engine.forest.stock bench "fuel" = fuel :: moreFuel)
    (hwood : engine.forest.stock bench "wood" = wood :: moreWood) :
    ∃ torch after, (craftTorch.effects.forM (·.run invoke (craftingContext bench tool
        (engine.forest.findings bench tool)))).start engine = some (.ok (), after) ∧
      Exchanges bench [fuel, wood] [torch] described engine after ∧ Trails engine after := by
  have hequipped := h.equipped
  have hfuelFirst : fuel ∈ engine.forest.stock bench "fuel" := by
    rw [hfuel]
    exact List.mem_cons_self
  have hwoodFirst : wood ∈ engine.forest.stock bench "wood" := by
    rw [hwood]
    exact List.mem_cons_self
  have hfuelListed := (Forest.mem_stock.1 hfuelFirst).1
  have hwoodListed := (Forest.mem_stock.1 hwoodFirst).1
  let matched := engine.forest.findings bench tool
  -- The fuel goes first.
  obtain ⟨burnt, hremoveFuel, hspentFuel, hburnt, htrailsFuel⟩ := exists_run_remove invoke h hdepth
    (.inl rfl) (hequipped.filter_fuel.trans hfuel) hfuelListed
  -- The wood is where it was.
  have hfound : matched.filter (burnt.forest.tagged "wood") = wood :: moreWood := by
    rw [← hwood, ← hequipped.filter_wood]
    refine List.filter_congr fun child hmem => ?_
    exact hspentFuel.tagged_eq (h.contains (hequipped.mem_children hmem)) "wood"
  have hwoodKept : wood ∈ burnt.forest.children bench := by
    have hne := hequipped.ne_of_mem_stock hfuelFirst hwoodFirst
    rw [hspentFuel.cards.children]
    simpa using ⟨hwoodListed, hne.symm⟩
  obtain ⟨sawn, hremoveWood, hspentWood, hsawn, htrailsWood⟩ := exists_run_remove invoke hburnt
    (htrailsFuel.depth ▸ hdepth) (.inr rfl) hfound hwoodKept
  -- The torch comes last.
  have htrails := htrailsFuel.trans htrailsWood
  obtain ⟨torch, after, hcreate, hmade, htrailsTorch⟩ :=
    exists_run_create invoke hsawn (htrails.depth ▸ hdepth) matched
  refine ⟨torch, after, ?_, ?_, htrails.trans htrailsTorch⟩
  · unfold craftTorch
    rw [start_forM_cons _ _ _ hremoveFuel, start_forM_cons _ _ _ hremoveWood,
      start_forM_cons _ _ _ hcreate]
    rfl
  · have hspent : Exchanges bench [fuel, wood] [] described engine sawn :=
      hspentFuel.trans hspentWood fun child hmem => by
        rw [List.mem_singleton.1 hmem]
        exact h.contains hwoodListed
    exact hspent.trans hmade fun _ hmem => absurd hmem List.not_mem_nil

/-- A workshop stays one if cards, settings and rules are the same. -/
theorem moved (h : engine.Workshop bench tool described) (harises : after.Arises)
    (hsame : SameCards engine after) (hconfig : after.config = engine.config)
    (hrules : after.rules = engine.rules) : after.Workshop bench tool described :=
  h.exchanges (.still harises hsame hconfig hrules bench described) List.not_mem_nil

/-- The rule is about uses, so it ignores what cards do to each other. -/
theorem ignores (h : engine.Workshop bench tool described) {raised : Raised}
    (hkind : raised.event.kind = .added ∨ raised.event.kind = .removed) :
    engine.Ignores raised := by
  unfold Ignores candidates rulesFor
  rw [h.rules]
  rcases hkind with hadded | hremoved
  · rw [hadded]
    rfl
  · rw [hremoved]
    rfl

theorem declarative (h : engine.Workshop bench tool described) : engine.Declarative := by
  unfold Declarative
  rw [h.rules]
  decide

theorem stock_nodup (h : engine.Workshop bench tool described) (tag : String) :
    (engine.forest.stock bench tag).Nodup := (h.sound.nodup_children bench).filter _

theorem contains_of_mem_material (h : engine.Workshop bench tool described) {count : Nat}
    {piece : Handle} (hmem : piece ∈ engine.forest.material bench count) :
    engine.forest.contains piece = true := by
  refine h.contains ?_
  rcases List.mem_append.1 hmem with hfuel | hwood
  · exact (Forest.mem_stock.1 (List.mem_of_mem_take hfuel)).1
  · exact (Forest.mem_stock.1 (List.mem_of_mem_take hwood)).1

theorem tool_not_mem_material (h : engine.Workshop bench tool described) (count : Nat) :
    tool ∉ engine.forest.material bench count := by
  obtain ⟨hnoFuel, hnoWood⟩ := h.equipped.tool_not_mem_stock
  intro hmem
  rcases List.mem_append.1 hmem with hfuel | hwood
  · exact hnoFuel (List.mem_of_mem_take hfuel)
  · exact hnoWood (List.mem_of_mem_take hwood)

end Workshop

end Engine

end CardRules
