import CardRules.Proofs.Following
import CardRules.Proofs.Parts

/-!
Two runs side by side. Computations mirror each other in a relation between engines if, from related
engines, they end alike in related engines, or neither of them ends; they concur from two engines if
both end, and without an error. There is a rule for each way to put computations together. In an
`Accord`, all that happens while an event is processed is mirrored if operations that raise events
are; and they are in a `Congruence`, a relation that effects respect.
-/

namespace CardRules

open EngineM

variable {α β : Type} {rel : Engine → Engine → Prop}

namespace EngineM

/-- Two outcomes are the same but for the engines, and these are related; or there are none. -/
inductive Ends (rel : Engine → Engine → Prop) :
    Option (Except Error α × Engine) → Option (Except Error α × Engine) → Prop
  | never : Ends rel none none
  | ended (result : Except Error α) {after after' : Engine} (h : rel after after') :
    Ends rel (some (result, after)) (some (result, after'))

theorem Ends.mono {wider : Engine → Engine → Prop} {left right : Option (Except Error α × Engine)}
    (h : Ends rel left right) (hwider : ∀ after after', rel after after' → wider after after') :
    Ends wider left right := by
  cases h with
  | never => exact .never
  | ended result h => exact .ended result (hwider _ _ h)

/-- Two computations end alike from related engines. -/
def Mirrors (rel : Engine → Engine → Prop) (left right : EngineM α) : Prop :=
  ∀ engine other, rel engine other → Ends rel (left.start engine) (right.start other)

/-! ## Putting computations together -/

section

variable {engine other : Engine} {left right : EngineM α} {next next' : α → EngineM β}

theorem Ends.bind (h : Ends rel (left.start engine) (right.start other))
    (hnext : ∀ value after after', rel after after' →
      Ends rel ((next value).start after) ((next' value).start after')) :
    Ends rel ((left >>= next).start engine) ((right >>= next').start other) := by
  rw [start_bind, start_bind]
  generalize left.start engine = ending at h
  generalize right.start other = ending' at h
  cases h with
  | never => exact .never
  | ended result h =>
    cases result with
    | error error => exact .ended (.error error) h
    | ok value => exact hnext value _ _ h

theorem Ends.map (change : α → β) (h : Ends rel (left.start engine) (right.start other)) :
    Ends rel ((change <$> left).start engine) ((change <$> right).start other) := by
  rw [start_map, start_map]
  generalize left.start engine = ending at h
  generalize right.start other = ending' at h
  cases h with
  | never => exact .never
  | ended result h => exact .ended (result.map change) h

/-- A change that follows, whatever the outcome. -/
theorem Ends.thenAlways {wider : Engine → Engine → Prop} {change : Engine → Engine}
    (h : Ends rel (left.start engine) (right.start other))
    (hchange : ∀ after after', rel after after' → wider (change after) (change after')) :
    Ends wider ((left.thenAlways change).start engine) ((right.thenAlways change).start other) := by
  rw [start_thenAlways, start_thenAlways]
  generalize left.start engine = ending at h
  generalize right.start other = ending' at h
  cases h with
  | never => exact .never
  | ended result h => exact .ended result (hchange _ _ h)

theorem Ends.outcome (h : Ends rel (left.start engine) (right.start other)) :
    Ends rel (left.outcome.start engine) (right.outcome.start other) := by
  rw [start_outcome, start_outcome]
  generalize left.start engine = ending at h
  generalize right.start other = ending' at h
  cases h with
  | never => exact .never
  | ended result h => exact .ended (.ok result) h

theorem Mirrors.pure (value : α) : Mirrors rel (Pure.pure value) (Pure.pure value) :=
  fun _ _ h => .ended (.ok value) h

theorem Mirrors.throw (error : Error) : Mirrors rel (throw error : EngineM α) (throw error) :=
  fun _ _ h => .ended (.error error) h

theorem Mirrors.bind (h : Mirrors rel left right)
    (hnext : ∀ value, Mirrors rel (next value) (next' value)) :
    Mirrors rel (left >>= next) (right >>= next') :=
  fun engine other hrel => (h engine other hrel).bind fun value => hnext value

theorem Mirrors.map (change : α → β) (h : Mirrors rel left right) :
    Mirrors rel (change <$> left) (change <$> right) :=
  fun engine other hrel => (h engine other hrel).map change

theorem Mirrors.modify {change change' : Engine → Engine}
    (h : ∀ engine other, rel engine other → rel (change engine) (change' other)) :
    Mirrors rel (modify change) (modify change') :=
  fun engine other hrel => .ended (.ok ()) (h engine other hrel)

theorem Mirrors.forM {next next' : α → EngineM Unit} {values : List α}
    (h : ∀ value ∈ values, Mirrors rel (next value) (next' value)) :
    Mirrors rel (values.forM next) (values.forM next') := by
  induction values with
  | nil => exact .pure ()
  | cons value rest ih =>
    unfold List.forM
    refine .bind (h value List.mem_cons_self) fun _ => ?_
    exact ih fun other hmem => h other (List.mem_cons_of_mem _ hmem)

theorem Mirrors.times {left right : EngineM Unit} (h : Mirrors rel left right) (count : Nat) :
    Mirrors rel (EngineM.times left count) (EngineM.times right count) := by
  induction count with
  | zero => exact .pure ()
  | succ _ ih => exact .bind h fun _ => ih

end

/-! ## Computations that end well -/

/-- From two engines, two computations end well, with the same value and in related engines. -/
def Concur (rel : Engine → Engine → Prop) (left right : EngineM α) (engine other : Engine) :
    Prop :=
  ∃ value after after', left.start engine = some (.ok value, after) ∧
    right.start other = some (.ok value, after') ∧ rel after after'

section

variable {engine other here here' : Engine} {left left' right right' : EngineM α}

theorem Concur.ofOk {value : α} (h : rel here here')
    (hleft : left.start engine = some (.ok value, here))
    (hright : right.start other = some (.ok value, here')) : Concur rel left right engine other :=
  ⟨value, here, here', hleft, hright, h⟩

/-- What concurs later on, without a way back, concurs from the start. -/
theorem Concur.goingOn (hleft : left.start engine = left'.start here)
    (hright : right.start other = right'.start here') (h : Concur rel left' right' here here') :
    Concur rel left right engine other := by
  obtain ⟨value, after, after', hstart, hstart', hrel⟩ := h
  exact ⟨value, after, after', hleft.trans hstart, hright.trans hstart', hrel⟩

theorem Concur.bind {next next' : α → EngineM β} (h : Concur rel left right engine other)
    (hnext : ∀ value after after', rel after after' →
      Concur rel (next value) (next' value) after after') :
    Concur rel (left >>= next) (right >>= next') engine other := by
  obtain ⟨value, after, after', hstart, hstart', hrel⟩ := h
  refine .goingOn ?_ ?_ (hnext value after after' hrel)
  · rw [start_bind, hstart]
  · rw [start_bind, hstart']

theorem Concur.map (change : α → β) (h : Concur rel left right engine other) :
    Concur rel (change <$> left) (change <$> right) engine other := by
  obtain ⟨value, after, after', hstart, hstart', hrel⟩ := h
  refine ⟨change value, after, after', ?_, ?_, hrel⟩
  · rw [start_map, hstart]
    rfl
  · rw [start_map, hstart']
    rfl

theorem Concur.forM {next next' : α → EngineM Unit} {values : List α} (h : rel engine other)
    (hnext : ∀ value ∈ values, ∀ after after', rel after after' →
      Concur rel (next value) (next' value) after after') :
    Concur rel (values.forM next) (values.forM next') engine other := by
  induction values generalizing engine other with
  | nil => exact .ofOk h rfl rfl
  | cons value rest ih =>
    unfold List.forM
    refine (hnext value List.mem_cons_self engine other h).bind fun _ after after' hafter => ?_
    exact ih hafter fun later hmem => hnext later (List.mem_cons_of_mem _ hmem)

end

end EngineM

/-! ## What is respected -/

/-- A change of a card that neither looks at its listeners nor touches them. -/
def Card.IgnoresListeners (change : Card → Card) : Prop :=
  ∀ card listeners, change { card with listeners } = { change card with listeners }

namespace Engine

/-- A relation between engines that holds on while an event is processed, as far as links are not
concerned: the rules for an event find the same in both, cards are made alike, and what is done to
both leaves them related. -/
structure Accord (rel : Engine → Engine → Prop) : Prop where
  equipped {engine other : Engine} (h : rel engine other) :
    other.factory.isSome = engine.factory.isSome
  next {engine other : Engine} (h : rel engine other) : other.forest.next = engine.forest.next
  parts {engine other : Engine} (h : rel engine other) (id : String) :
    other.maker.parts id = engine.maker.parts id
  unmade {engine other : Engine} (h : rel engine other) {id : String}
    (hmade : engine.maker.make? id = none) : other.maker.make? id = none
  made {engine other : Engine} (h : rel engine other) {id : String} {card : Card}
    (hmade : engine.maker.make? id = some card) :
    ∃ card', other.maker.make? id = some card' ∧ rel (engine.addCard card) (other.addCard card')
  selected {engine other : Engine} (h : rel engine other) (selector : Selector)
    (context : RuleContext) : other.selected selector context = engine.selected selector context
  edit {engine other : Engine} (h : rel engine other) (handles : List Handle)
    {change : Card → Card} (hchange : Card.IgnoresListeners change) :
    rel (engine.modifyCards handles change) (other.modifyCards handles change)
  fire {engine other : Engine} (h : rel engine other) (context : RuleContext) :
    rel (engine.record (.fired engine.depth context)) (other.record (.fired other.depth context))
  matched {engine other : Engine} (h : rel engine other) (raised : Raised) :
    other.config.choose (other.findMatches raised).1 =
        engine.config.choose (engine.findMatches raised).1 ∧
      rel (engine.findMatches raised).2 (other.findMatches raised).2

/-- Operations that raise events mirror each other, each with its own way to settle. -/
structure Moves (rel : Engine → Engine → Prop) (settle settle' : EngineM Unit) : Prop where
  attach : ∀ parent child intrinsic, Mirrors rel (Engine.attach settle parent child intrinsic)
    (Engine.attach settle' parent child intrinsic)
  removeChild : ∀ parent child force, Mirrors rel (Engine.removeChild settle parent child force)
    (Engine.removeChild settle' parent child force)
  detach : ∀ child force, Mirrors rel (Engine.detach settle child force)
    (Engine.detach settle' child force)
  raise : ∀ raised, Mirrors rel (Engine.raise settle raised) (Engine.raise settle' raised)
  tickAll : Mirrors rel (Engine.tickAll settle) (Engine.tickAll settle')

namespace Accord

variable (hrel : Accord rel) {settle settle' : EngineM Unit} {left right : Invoker}

include hrel

theorem assemble (hmoves : Moves rel settle settle') (levels : Nat) (id : String) :
    Mirrors rel (Engine.assemble settle levels id) (Engine.assemble settle' levels id) := by
  induction levels generalizing id with
  | zero => exact .throw _
  | succ levels ih =>
    intro engine other h
    rw [start_assemble, start_assemble, hrel.next h, hrel.parts h]
    cases hmade : engine.maker.make? id with
    | none =>
      rw [hrel.unmade h hmade]
      exact .ended _ h
    | some card =>
      obtain ⟨card', hmade', hadded⟩ := hrel.made h hmade
      rw [hmade']
      refine Ends.map _ (Mirrors.forM (fun part _ => ?_) _ _ hadded)
      refine .bind (ih part) fun found => ?_
      cases found with
      | none => exact .pure ()
      | some child => exact hmoves.attach _ child true

section

variable (hmoves : Moves rel settleInside settleInside)

include hmoves

theorem effect (context : RuleContext) (effect : Effect)
    (hinvoke : ∀ name, effect = .invoke name →
      Mirrors rel (left name context) (right name context)) :
    Mirrors rel (effect.run left context) (effect.run right context) := by
  cases effect with
  | create templates count =>
    intro engine other h
    simp only [Effect.run, start_get_bind, hrel.equipped h]
    split
    · refine Mirrors.forM (fun id _ => ?_) _ _ h
      refine .times (.bind (hrel.assemble hmoves _ id) fun made => ?_) count
      cases made with
      | none => exact .pure ()
      | some card => exact hmoves.attach _ card false
    · exact .ended _ h
  | remove selector =>
    intro engine other h
    simp only [Effect.run, start_get_bind, hrel.selected h]
    exact Mirrors.forM (fun handle _ => .map _ (hmoves.detach handle false)) _ _ h
  | changeProperty selector name change =>
    refine .modify fun engine other h => ?_
    rw [hrel.selected h]
    exact hrel.edit h _ fun _ _ => rfl
  | addTag selector tag =>
    simp only [Effect.run]
    split
    · exact .pure ()
    · refine .modify fun engine other h => ?_
      rw [hrel.selected h]
      exact hrel.edit h _ fun _ _ => rfl
  | removeTag selector tag =>
    refine .modify fun engine other h => ?_
    rw [hrel.selected h]
    exact hrel.edit h _ fun _ _ => rfl
  | signal selector id payload =>
    intro engine other h
    simp only [Effect.run, start_get_bind, hrel.selected h]
    exact Mirrors.forM (fun handle _ => hmoves.raise _) _ _ h
  | invoke name => exact hinvoke name rfl

theorem runMatches (chosen : List Match)
    (hinvoke : ∀ found ∈ chosen, ∀ name, Effect.invoke name ∈ found.rule.effects →
      Mirrors rel (left name found.context) (right name found.context)) :
    Mirrors rel (Engine.runMatches left chosen) (Engine.runMatches right chosen) := by
  induction chosen with
  | nil => exact .pure ()
  | cons found rest ih =>
    have heffects : Mirrors rel (found.rule.effects.forM (·.run left found.context))
        (found.rule.effects.forM (·.run right found.context)) := by
      refine .forM fun effect hmem => hrel.effect hmoves found.context effect fun name heq => ?_
      exact hinvoke found List.mem_cons_self name (heq ▸ hmem)
    unfold Engine.runMatches
    refine .bind (fun engine other h => ?_) fun _ => ?_
    · rw [start_runMatch, start_runMatch]
      exact heffects _ _ (hrel.fire h found.context)
    · split
      · exact .pure ()
      · exact ih fun other hmem => hinvoke other (List.mem_cons_of_mem _ hmem)

/-- The rules for an event do the same to both, if the callbacks that they run do. -/
theorem runRules (raised : Raised)
    (hinvoke : ∀ engine other, rel engine other → ∀ rule ∈ engine.rules, ∀ name,
      Effect.invoke name ∈ rule.effects → ∀ context,
        Mirrors rel (left name context) (right name context)) :
    Mirrors rel (Engine.runRules left raised) (Engine.runRules right raised) := by
  intro engine other h
  obtain ⟨hchosen, hdrawn⟩ := hrel.matched h raised
  rw [start_runRules, start_runRules, hchosen]
  refine hrel.runMatches hmoves _ (fun found hfound name hname => ?_) _ _ hdrawn
  obtain ⟨hrule, -⟩ := rule_mem_of_mem_choose engine raised hfound
  exact hinvoke engine other h found.rule hrule name hname found.context

end

end Accord

/-- A relation between engines that effects respect: they find the same in both, and what they do to
both leaves them related. -/
structure Congruence (rel : Engine → Engine → Prop) : Prop where
  factory {engine other : Engine} (h : rel engine other) : other.factory = engine.factory
  next {engine other : Engine} (h : rel engine other) : other.forest.next = engine.forest.next
  contains {engine other : Engine} (h : rel engine other) (handle : Handle) :
    other.forest.contains handle = engine.forest.contains handle
  owner {engine other : Engine} (h : rel engine other) (handle : Handle) :
    other.forest.owner? handle = engine.forest.owner? handle
  selected {engine other : Engine} (h : rel engine other) (selector : Selector)
    (context : RuleContext) : other.selected selector context = engine.selected selector context
  handles {engine other : Engine} (h : rel engine other) :
    other.registry.handles = engine.registry.handles
  addCard {engine other : Engine} (h : rel engine other) {id : String} {card : Card}
    (hmade : engine.maker.make? id = some card) : rel (engine.addCard card) (other.addCard card)
  edit {engine other : Engine} (h : rel engine other) (handles : List Handle)
    {change : Card → Card} (hchange : Card.IgnoresListeners change) :
    rel (engine.modifyCards handles change) (other.modifyCards handles change)
  emit {engine other : Engine} (h : rel engine other) (source : Handle) (event : Event) :
    rel { engine with forest := engine.forest.emit source event }
      { other with forest := other.forest.emit source event }
  refused {engine other : Engine} (h : rel engine other) {parent child : Handle}
    {intrinsic : Bool} {error : Error}
    (hattach : engine.forest.attach parent child intrinsic = .error error) :
    other.forest.attach parent child intrinsic = .error error
  attached {engine other : Engine} (h : rel engine other) {parent child : Handle}
    {intrinsic : Bool} {forest : Forest}
    (hattach : engine.forest.attach parent child intrinsic = .ok forest) :
    ∃ forest', other.forest.attach parent child intrinsic = .ok forest' ∧
      rel { engine with forest } { other with forest := forest' }
  unremoved {engine other : Engine} (h : rel engine other) {parent child : Handle} {force : Bool}
    (hremove : engine.forest.remove? parent child force = none) :
    other.forest.remove? parent child force = none
  removed {engine other : Engine} (h : rel engine other) {parent child : Handle} {force : Bool}
    {forest : Forest} (hremove : engine.forest.remove? parent child force = some forest) :
    ∃ forest', other.forest.remove? parent child force = some forest' ∧
      rel { engine with forest } { other with forest := forest' }
  fire {engine other : Engine} (h : rel engine other) (context : RuleContext) :
    rel (engine.record (.fired engine.depth context)) (other.record (.fired other.depth context))
  matched {engine other : Engine} (h : rel engine other) (raised : Raised) :
    other.config.choose (other.findMatches raised).1 =
        engine.config.choose (engine.findMatches raised).1 ∧
      rel (engine.findMatches raised).2 (other.findMatches raised).2

namespace Congruence

variable (hrel : Congruence rel) {settle settle' : EngineM Unit}

include hrel

theorem accord : Accord rel where
  equipped h := by rw [hrel.factory h]
  next h := hrel.next h
  parts h id := by
    unfold maker
    rw [hrel.factory h]
  unmade {engine other} h id hmade := by
    unfold maker at hmade ⊢
    rwa [hrel.factory h]
  made {engine other} h _ card hmade := by
    refine ⟨card, ?_, hrel.addCard h hmade⟩
    unfold maker at hmade ⊢
    rwa [hrel.factory h]
  selected h := hrel.selected h
  edit h := hrel.edit h
  fire h := hrel.fire h
  matched h := hrel.matched h

section

variable (hsettle : Mirrors rel settle settle')

include hsettle

theorem attach (parent child : Handle) (intrinsic : Bool) :
    Mirrors rel (Engine.attach settle parent child intrinsic)
      (Engine.attach settle' parent child intrinsic) := by
  intro engine other h
  rw [start_attach, start_attach]
  cases hattach : engine.forest.attach parent child intrinsic with
  | error error =>
    rw [hrel.refused h hattach]
    exact .ended (.error error) h
  | ok forest =>
    obtain ⟨forest', hattach', hforest⟩ := hrel.attached h hattach
    rw [hattach']
    exact hsettle _ _ hforest

theorem removeChild (parent child : Handle) (force : Bool) :
    Mirrors rel (Engine.removeChild settle parent child force)
      (Engine.removeChild settle' parent child force) := by
  intro engine other h
  rw [start_removeChild, start_removeChild]
  cases hremove : engine.forest.remove? parent child force with
  | none =>
    rw [hrel.unremoved h hremove]
    exact (hsettle _ _ h).map _
  | some forest =>
    obtain ⟨forest', hremove', hforest⟩ := hrel.removed h hremove
    rw [hremove']
    exact (hsettle _ _ hforest).map _

theorem detach (child : Handle) (force : Bool) :
    Mirrors rel (Engine.detach settle child force) (Engine.detach settle' child force) := by
  intro engine other h
  have howner := hrel.owner h child
  cases hdetach : engine.forest.owner? child with
  | none =>
    have hnone : engine.forest.detach? child force = none := by simp [Forest.detach?, hdetach]
    have hnone' : other.forest.detach? child force = none := by
      simp [Forest.detach?, howner, hdetach]
    rw [start_detach, start_detach, hnone, hnone']
    exact (hsettle _ _ h).map _
  | some owner =>
    -- With the owner known, to detach is to remove.
    have hremove := hrel.removeChild hsettle owner child force engine other h
    rw [start_removeChild, start_removeChild] at hremove
    have hsame : engine.forest.detach? child force = engine.forest.remove? owner child force := by
      simp [Forest.detach?, hdetach]
    have hsame' : other.forest.detach? child force = other.forest.remove? owner child force := by
      simp [Forest.detach?, howner, hdetach]
    rw [start_detach, start_detach, hsame, hsame']
    exact hremove

theorem raise (raised : Raised) :
    Mirrors rel (Engine.raise settle raised) (Engine.raise settle' raised) := by
  intro engine other h
  rw [start_raise, start_raise, hrel.contains h]
  by_cases hknown : engine.forest.contains raised.source = true
  · rw [if_pos hknown, if_pos hknown]
    exact hsettle _ _ (hrel.emit h raised.source raised.event)
  · rw [if_neg hknown, if_neg hknown]
    exact .ended _ h

theorem tickAll : Mirrors rel (Engine.tickAll settle) (Engine.tickAll settle') := by
  intro engine other h
  rw [start_tickAll, start_tickAll, hrel.handles h]
  -- The ticks are raised one after the other, and each keeps the engines related.
  have hticks : ∀ (handles : List Handle) (forest forest' : Forest),
      rel { engine with forest } { other with forest := forest' } →
        rel { engine with forest := handles.foldl (·.emit · .tick) forest }
          { other with forest := handles.foldl (·.emit · .tick) forest' } := by
    intro handles
    induction handles with
    | nil => exact fun _ _ h => h
    | cons handle rest ih =>
      intro forest forest' h
      exact ih _ _ (hrel.emit h handle .tick)
  exact hsettle _ _ (hticks engine.registry.handles engine.forest other.forest h)

/-- Where settling is mirrored, operations that raise events are. -/
theorem moves : Moves rel settle settle' where
  attach := hrel.attach hsettle
  removeChild := hrel.removeChild hsettle
  detach := hrel.detach hsettle
  raise := hrel.raise hsettle
  tickAll := hrel.tickAll hsettle

end

end Congruence

end Engine

end CardRules
