import CardRules.Proofs.Gathering
import CardRules.Proofs.Hushing
import Mathlib.Logic.Function.Iterate

/-!
What a change of properties does. It is carried out once for each time that a card is selected, and
the selections that could name a card twice are known: those of the matched cards, if the rule does
not ask for distinct ones. Everything but the values of the properties stays as it is.
-/

namespace CardRules

open EngineM

/-! ## Selections without repetitions -/

/-- The cards that a rule has matched are distinct, if it asks for that. -/
theorem Rule.nodup_matched_of_gather {σ : Type} {toss : Float → StateM σ Bool} {forest : Forest}
    {raised : Raised} {chances : σ} {rule : Rule} {context : RuleContext}
    (h : ((rule.gather toss forest raised).run chances).1 = some context)
    (hdistinct : rule.policy.distinctMatched = true) : context.matched.Nodup := by
  obtain ⟨matched, -, rfl⟩ := Option.map_eq_some_iff.1 h
  simp only [hdistinct, if_true]
  exact nodup_distinct matched

namespace Selector

variable {selector : Selector} {forest : Forest} {selection : Selection}

/-- What is selected stands in the order of the candidates. -/
theorem select_sublist (selector : Selector) (forest : Forest) (selection : Selection) :
    (selector.select forest selection).Sublist (selector.candidates forest selection) := by
  unfold select
  cases selector.take with
  | none => exact List.filter_sublist
  | some count => exact (List.take_sublist _ _).trans List.filter_sublist

/-- In a sound forest only the matched cards can name a card twice. -/
theorem nodup_candidates (hsound : forest.Sound)
    (hmatched : selector.scope = .matched → selection.matched.Nodup) :
    (selector.candidates forest selection).Nodup := by
  unfold candidates
  cases hscope : selector.scope with
  | matched => exact hmatched hscope
  | children => exact hsound.nodup_children _
  | descendants => exact Forest.nodup_descendants hsound _ _
  | source => exact List.nodup_singleton _
  | container => exact List.nodup_singleton _

theorem nodup_select (hsound : forest.Sound)
    (hmatched : selector.scope = .matched → selection.matched.Nodup) :
    (selector.select forest selection).Nodup :=
  (nodup_candidates hsound hmatched).sublist (select_sublist selector forest selection)

end Selector

/-! ## Changes of properties, so many times -/

theorem PropertyChange.name_apply (change : PropertyChange) (property : Property) :
    (change.apply property).name = property.name := by
  cases change <;> rfl

theorem PropertyChange.name_iterate (change : PropertyChange) (times : Nat) (property : Property) :
    (change.apply^[times] property).name = property.name := by
  induction times generalizing property with
  | zero => rfl
  | succ times ih => rw [Function.iterate_succ_apply, ih, name_apply]

/-- The card after its properties of a name, or all of them if no name is given, were changed so
many times, each in its place. -/
def Card.amended (card : Card) (name : Option String) (change : PropertyChange) (times : Nat) :
    Card :=
  { card with
    properties := card.properties.map fun property =>
      if name.all (property.name = ·) then change.apply^[times] property else property }

theorem Card.iterate_changeProperties (card : Card) (name : Option String)
    (change : PropertyChange) (times : Nat) :
    (fun card : Card => card.changeProperties name change)^[times] card =
      card.amended name change times := by
  induction times generalizing card with
  | zero => simp [amended]
  | succ times ih =>
    rw [Function.iterate_succ_apply, ih]
    unfold amended changeProperties
    simp only [List.map_map]
    refine congrArg (fun properties => { card with properties }) (List.map_congr_left ?_)
    intro property _
    -- A changed property is still called what it was called, so it is changed again.
    by_cases hname : name.all (property.name = ·) = true
    · simp [hname, PropertyChange.name_apply]
    · simp [hname]

theorem Card.names_amended (card : Card) (name : Option String) (change : PropertyChange)
    (times : Nat) :
    (card.amended name change times).properties.map (·.name) = card.properties.map (·.name) := by
  unfold amended
  rw [List.map_map]
  refine List.map_congr_left fun property _ => ?_
  simp only [Function.comp_apply]
  split
  · exact change.name_iterate times property
  · rfl

/-! ## Changing each of a list of cards -/

namespace Forest

/-- Each card is changed as often as the list names it. -/
theorem get?_foldl_modify (change : Card → Card) (handles : List Handle) (forest : Forest)
    (handle : Handle) :
    (handles.foldl (·.modify · change) forest).get? handle =
      (forest.get? handle).map change^[handles.count handle] := by
  induction handles generalizing forest with
  | nil => simp
  | cons first rest ih =>
    rw [List.foldl_cons, ih, get?_modify, List.count_cons]
    by_cases hfirst : handle = first
    · subst hfirst
      rw [if_pos rfl, Option.map_map, if_pos (beq_self_eq_true handle), Function.iterate_succ]
    · have hother : ¬ (first == handle) = true := by simpa using Ne.symm hfirst
      rw [if_neg hfirst, if_neg hother, Nat.add_zero]

theorem size_foldl_modify (change : Card → Card) (handles : List Handle) (forest : Forest) :
    (handles.foldl (·.modify · change) forest).size = forest.size := by
  induction handles generalizing forest with
  | nil => rfl
  | cons first rest ih => rw [List.foldl_cons, ih, size_modify]

end Forest

namespace Engine

variable {engine : Engine}

/-! ## The law -/

/-- Selections among the children or the descendants of the container, or of the source or the
container alone, name no card twice, and no selection does in a context that a rule has gathered
that asks for distinct cards. A change of properties goes through whatever is selected: each card
has its properties of that name, or all of them if none is given, changed as often as it is
selected, in their places and under their names, and nothing else in the engine is different. -/
theorem properties_change_once_per_selection (h : engine.Arises) :
    (∀ (selector : Selector) context, selector.scope ≠ .matched →
      (engine.selected selector context).Nodup) ∧
    (∀ {σ : Type} (toss : Float → StateM σ Bool) (chances : σ) forest raised (rule : Rule) context,
      ((rule.gather toss forest raised).run chances).1 = some context →
        rule.policy.distinctMatched = true →
          ∀ selector, (engine.selected selector context).Nodup) ∧
    ∀ invoke context selector name change, ∃ forest,
      ((Effect.changeProperty selector name change).run invoke context).start engine =
        some (.ok (), { engine with forest }) ∧
      forest.size = engine.forest.size ∧ forest.outbox = engine.forest.outbox ∧
      (∀ handle, forest.get? handle = (engine.forest.get? handle).map
        (·.amended name change ((engine.selected selector context).count handle))) ∧
      ∀ handle, (forest.get? handle).map (·.properties.map (·.name)) =
        (engine.forest.get? handle).map (·.properties.map (·.name)) := by
  have hsound := h.listed.linked.sound
  refine ⟨fun selector context hscope => ?_,
    fun toss chances forest raised rule context hgather hdistinct selector => ?_,
    fun invoke context selector name change => ?_⟩
  · exact Selector.nodup_select hsound fun hmatched => absurd hmatched hscope
  · exact Selector.nodup_select hsound fun _ => Rule.nodup_matched_of_gather hgather hdistinct
  · let handles := engine.selected selector context
    have hcards (handle : Handle) :
        (handles.foldl (·.modify · (·.changeProperties name change)) engine.forest).get? handle =
          (engine.forest.get? handle).map (·.amended name change (handles.count handle)) := by
      rw [Forest.get?_foldl_modify]
      exact congrArg (Option.map · _) (funext fun card => card.iterate_changeProperties _ _ _)
    refine ⟨_, rfl, Forest.size_foldl_modify _ _ _, outbox_modifyCards engine _ _, hcards,
      fun handle => ?_⟩
    rw [hcards handle, Option.map_map]
    exact congrArg (Option.map · _) (funext fun card => card.names_amended _ _ _)

/-- A kettle on its own. -/
def kettle : Engine :=
  (new {}).addCard
    { id := "kettle", category := .item, properties := [⟨"heat", 1, []⟩, ⟨"age", 5, []⟩] }

/-- A rule that matches its source with each of two requirements. -/
def stoking : Rule where
  name := "stoking"
  trigger := .use
  requirements := [.has { scope := .source }, .has { scope := .source }]
  effects := [.changeProperty {} (some "heat") (.addBase 2)]

/-- The kettle is matched twice, so its heat rises twice, and nothing else about it changes. -/
theorem kettle_heats_twice :
    ∃ context forest, kettle.Arises ∧
      ((stoking.gather Random.Generator.chance kettle.forest ⟨⟨0⟩, .use⟩).run
        kettle.generator).1 = some context ∧
      kettle.selected {} context = [⟨0⟩, ⟨0⟩] ∧
      ((Effect.changeProperty {} (some "heat") (.addBase 2)).run (invoker moving 0) context).start
        kettle = some (.ok (), { kettle with forest }) ∧
      forest.get? ⟨0⟩ = (kettle.forest.get? ⟨0⟩).map ({ · with
        properties := [⟨"heat", 1 + 2 + 2, []⟩, ⟨"age", 5, []⟩] }) := by
  have hkettle : kettle.Arises :=
    .step (.new fun _ hfactory => by cases hfactory) (.change (.addCard ⟨rfl, rfl, rfl, rfl, rfl⟩))
  let context : RuleContext := ⟨"stoking", .use, ⟨0⟩, ⟨0⟩, [⟨0⟩, ⟨0⟩], none⟩
  obtain ⟨-, -, hchanges⟩ := properties_change_once_per_selection hkettle
  obtain ⟨forest, hstart, -, -, hcards, -⟩ :=
    hchanges (invoker moving 0) context {} (some "heat") (.addBase 2)
  refine ⟨context, forest, hkettle, rfl, rfl, hstart, ?_⟩
  rw [hcards]
  rfl

end Engine

end CardRules
