import CardRules.Proofs.Course
import CardRules.Proofs.Delivery
import CardRules.Proofs.Matching
import CardRules.Proofs.Outcomes

/-!
Every computation of the engine follows the course, and it calls callbacks only in engines that
satisfy whatever condition each step keeps.

Both facts are carried by one relation between two computations, `AlikeFrom`: started from the same
engine they end alike, and the way there is a course. The two computations differ only in the
callbacks they run, which need to agree on the engines that satisfy the condition.
-/

namespace CardRules.Engine

open EngineM

variable {α β : Type} {allowed : Operation → Prop} {condition : Engine → Prop} {stage : Stage}

/-- Two computations have the same outcome from an engine, and a course leads to it from the
origin. -/
structure AlikeFrom (allowed : Operation → Prop) (stage : Stage) (origin : Engine)
    (left right : EngineM α) (engine : Engine) : Prop where
  same : left.start engine = right.start engine
  course : ∀ {result after}, left.start engine = some (result, after) →
    Course allowed stage origin after

/-- Two computations are alike from every engine that satisfies a condition. -/
def Alike (allowed : Operation → Prop) (condition : Engine → Prop) (stage : Stage)
    (left right : EngineM α) : Prop :=
  ∀ engine, condition engine → AlikeFrom allowed stage engine left right engine

/-- Each step of a course keeps a condition. -/
def Stays (allowed : Operation → Prop) (condition : Engine → Prop) : Prop :=
  ∀ {engine after}, Step allowed engine after → condition engine → condition after

theorem stays_true : Stays allowed fun _ => True := fun _ _ => trivial

/-! ## Putting computations together -/

section

variable {origin engine : Engine}

/-- Two computations whose outcome is known. -/
theorem AlikeFrom.ended {left right : EngineM α} {result : Except Error α} {after : Engine}
    (hleft : left.start engine = some (result, after))
    (hright : right.start engine = some (result, after))
    (hway : Course allowed stage origin after) :
    AlikeFrom allowed stage origin left right engine where
  same := hleft.trans hright.symm
  course hstart := by
    obtain ⟨rfl, rfl⟩ := Prod.mk.inj (Option.some.inj (hleft.symm.trans hstart))
    exact hway

/-- Two computations that go on as two others do from another engine. -/
theorem AlikeFrom.goingOn {left right left' right' : EngineM α} {middle : Engine}
    (hleft : left.start engine = left'.start middle)
    (hright : right.start engine = right'.start middle)
    (h : AlikeFrom allowed stage origin left' right' middle) :
    AlikeFrom allowed stage origin left right engine where
  same := by rw [hleft, hright, h.same]
  course hstart := h.course (hleft ▸ hstart)

/-- What is alike from a place on the way is alike from the origin. -/
theorem AlikeFrom.after {middle : Engine} {left right : EngineM α}
    (hway : Course allowed stage origin middle)
    (h : AlikeFrom allowed stage middle left right engine) :
    AlikeFrom allowed stage origin left right engine where
  same := h.same
  course hstart := hway.trans (h.course hstart)

theorem AlikeFrom.bind {left right : EngineM α} {next next' : α → EngineM β}
    (h : AlikeFrom allowed stage origin left right engine)
    (hnext : ∀ {value after}, left.start engine = some (.ok value, after) →
      Course allowed stage origin after →
      AlikeFrom allowed stage origin (next value) (next' value) after) :
    AlikeFrom allowed stage origin (left >>= next) (right >>= next') engine where
  same := by
    rw [start_bind, start_bind, ← h.same]
    rcases hl : left.start engine with _ | ⟨_ | value, after⟩
    · rfl
    · rfl
    · -- Only where the first part ends with a value is there a second one.
      exact (hnext hl (h.course hl)).same
  course {result final} hstart := by
    rw [start_bind] at hstart
    rcases hl : left.start engine with _ | ⟨error | value, after⟩
    · simp [hl] at hstart
    · obtain ⟨rfl, rfl⟩ : Except.error error = result ∧ after = final := by
        simpa [hl] using hstart
      exact h.course hl
    · rw [hl] at hstart
      exact (hnext hl (h.course hl)).course hstart

/-- Alike computations go on to be alike where the condition stays. -/
theorem Alike.then (hstays : Stays allowed condition) {left right : EngineM α}
    {next next' : α → EngineM β} (h : Alike allowed condition stage left right)
    (hnext : ∀ value, Alike allowed condition stage (next value) (next' value)) :
    Alike allowed condition stage (left >>= next) (right >>= next') := by
  intro engine he
  refine (h engine he).bind fun {value after} _ hway => ?_
  exact (hnext value after (hway.keeps hstays he)).after hway

theorem AlikeFrom.map {left right : EngineM α} (change : α → β)
    (h : AlikeFrom allowed stage origin left right engine) :
    AlikeFrom allowed stage origin (change <$> left) (change <$> right) engine where
  same := by rw [start_map, start_map, h.same]
  course hstart := by
    rw [start_map] at hstart
    obtain ⟨⟨result, after⟩, hl, heq⟩ := Option.map_eq_some_iff.1 hstart
    obtain ⟨rfl, rfl⟩ := Prod.mk.inj heq
    exact h.course hl

theorem Alike.map {left right : EngineM α} (change : α → β)
    (h : Alike allowed condition stage left right) :
    Alike allowed condition stage (change <$> left) (change <$> right) :=
  fun engine he => (h engine he).map change

theorem Alike.pure (value : α) :
    Alike allowed condition stage (Pure.pure value) (Pure.pure value) :=
  fun engine _ => .ended rfl rfl (.refl stage engine)

theorem Alike.throw (error : Error) :
    Alike allowed condition stage (throw error : EngineM α) (throw error) :=
  fun engine _ => .ended rfl rfl (.refl stage engine)

theorem Alike.modify {change : Engine → Engine}
    (h : ∀ engine, Course allowed stage engine (change engine)) :
    Alike allowed condition stage (modify change) (modify change) :=
  fun engine _ => .ended rfl rfl (h engine)

theorem Alike.forM (hstays : Stays allowed condition) {next next' : α → EngineM Unit}
    {values : List α}
    (h : ∀ value ∈ values, Alike allowed condition stage (next value) (next' value)) :
    Alike allowed condition stage (values.forM next) (values.forM next') := by
  induction values with
  | nil => exact .pure ()
  | cons value rest ih =>
    unfold List.forM
    refine .then hstays (h value List.mem_cons_self) fun _ => ?_
    exact ih fun other hmem => h other (List.mem_cons_of_mem _ hmem)

theorem Alike.times (hstays : Stays allowed condition) {left right : EngineM Unit}
    (h : Alike allowed condition stage left right) (count : Nat) :
    Alike allowed condition stage (EngineM.times left count) (EngineM.times right count) := by
  induction count with
  | zero => exact .pure ()
  | succ _ ih => exact .then hstays h fun _ => ih

/-- A computation followed by a change is alike if that closes what the computation opened. -/
theorem AlikeFrom.closing {inner : Stage} {start : Engine} {left right : EngineM α}
    {change : Engine → Engine} (h : AlikeFrom allowed inner start left right engine)
    (hclose : ∀ {after}, Course allowed inner start after →
      Course allowed stage origin (change after)) :
    AlikeFrom allowed stage origin (left.thenAlways change) (right.thenAlways change) engine where
  same := by rw [start_thenAlways, start_thenAlways, h.same]
  course hstart := by
    rw [start_thenAlways] at hstart
    obtain ⟨⟨result, after⟩, hl, heq⟩ := Option.map_eq_some_iff.1 hstart
    obtain ⟨rfl, rfl⟩ := Prod.mk.inj heq
    exact hclose (h.course hl)

end

/-! ## Operations that raise events -/

section

variable {settle settle' : EngineM Unit}

/-- Two ways to settle are alike once what was raised is handed out. -/
def Settles (allowed : Operation → Prop) (condition : Engine → Prop) (stage : Stage)
    (settle settle' : EngineM Unit) : Prop :=
  ∀ engine, condition engine.deliver →
    AlikeFrom allowed stage engine.deliver settle settle' engine

theorem settles_settleInside : Settles allowed condition stage settleInside settleInside :=
  fun engine _ => .ended rfl rfl (.refl stage engine.deliver)

/-- A change that hands out what it raised may be followed by settling. -/
theorem Settles.afterChange (h : Settles allowed condition stage settle settle')
    (hstays : Stays allowed condition) {engine raised : Engine} (he : condition engine)
    (hchange : Change allowed engine raised.deliver) :
    AlikeFrom allowed stage engine settle settle' raised :=
  (h raised (hstays (.change hchange) he)).after (.change hchange)

variable (hstays : Stays allowed condition)
  (hsettle : Settles allowed condition stage settle settle')

include hstays hsettle

theorem alike_attach (parent child : Handle) (intrinsic : Bool) :
    Alike allowed condition stage (attach settle parent child intrinsic)
      (attach settle' parent child intrinsic) := by
  intro engine he
  cases h : engine.forest.attach parent child intrinsic with
  | error error =>
    exact .ended (by rw [start_attach, h]) (by rw [start_attach, h]) (.refl stage engine)
  | ok forest =>
    exact .goingOn (by rw [start_attach, h]) (by rw [start_attach, h])
      (hsettle.afterChange hstays he (.attach h))

theorem alike_removeChild (parent child : Handle) (force : Bool)
    (hasked : force = true → allowed (.removeChild parent child force)) :
    Alike allowed condition stage (removeChild settle parent child force)
      (removeChild settle' parent child force) := by
  intro engine he
  cases h : engine.forest.remove? parent child force with
  | none =>
    -- Also where nothing is removed, what was raised before is handed out.
    refine .goingOn (by rw [start_removeChild, h]) (by rw [start_removeChild, h]) (.map _ ?_)
    exact hsettle.afterChange hstays he .deliver
  | some forest =>
    refine .goingOn (by rw [start_removeChild, h]) (by rw [start_removeChild, h]) (.map _ ?_)
    exact hsettle.afterChange hstays he (.remove (fun hforce => .inl (hasked hforce)) h)

theorem alike_detach (child : Handle) (force : Bool)
    (hasked : force = true → allowed (.detach child force)) :
    Alike allowed condition stage (detach settle child force) (detach settle' child force) := by
  intro engine he
  cases h : engine.forest.detach? child force with
  | none =>
    refine .goingOn (by rw [start_detach, h]) (by rw [start_detach, h]) (.map _ ?_)
    exact hsettle.afterChange hstays he .deliver
  | some forest =>
    refine .goingOn (by rw [start_detach, h]) (by rw [start_detach, h]) (.map _ ?_)
    unfold Forest.detach? at h
    split at h
    next => exact hsettle.afterChange hstays he (.remove (fun hforce => .inr (hasked hforce)) h)
    next => simp at h

theorem alike_raise (raised : Raised) :
    Alike allowed condition stage (raise settle raised) (raise settle' raised) := by
  intro engine he
  by_cases h : engine.forest.contains raised.source = true
  · exact .goingOn (by rw [start_raise, if_pos h]) (by rw [start_raise, if_pos h])
      (hsettle.afterChange hstays he (.raise h))
  · exact .ended (by rw [start_raise, if_neg h]) (by rw [start_raise, if_neg h])
      (.refl stage engine)

theorem alike_tickAll (hasked : allowed .tickAll) :
    Alike allowed condition stage (tickAll settle) (tickAll settle') :=
  fun engine he => .goingOn (start_tickAll engine settle) (start_tickAll engine settle')
    (hsettle.afterChange hstays he (.tickAll hasked))

theorem alike_assemble (levels : Nat) (id : String) :
    Alike allowed condition stage (assemble settle levels id) (assemble settle' levels id) := by
  induction levels generalizing id with
  | zero => exact .throw _
  | succ levels ih =>
    intro engine he
    cases h : engine.factory.bind fun factory =>
        (factory.make? id).map (factory.parts id, ·) with
    | none =>
      exact .ended (by rw [start_assemble_succ, h]) (by rw [start_assemble_succ, h])
        (.refl stage engine)
    | some made =>
      obtain ⟨parts, card⟩ := made
      refine .goingOn (by rw [start_assemble_succ, h]) (by rw [start_assemble_succ, h])
        (.map _ ?_)
      obtain ⟨factory, hfactory, hmade⟩ := Option.bind_eq_some_iff.1 h
      obtain ⟨_, hcard, heq⟩ := Option.map_eq_some_iff.1 hmade
      cases heq
      -- The card comes in first, and its parts are made in an engine that has it.
      have hchange : Change allowed engine (engine.addCard card) := .makeCard hfactory hcard
      refine AlikeFrom.after (.change hchange) ?_
      refine Alike.forM hstays (fun part _ => ?_) _ (hstays (.change hchange) he)
      refine .then hstays (ih part) fun found => ?_
      cases found with
      | none => exact .pure ()
      | some child => exact alike_attach hstays hsettle _ child true

end

/-! ## Edits -/

theorem isEdit_addTag (tag : String) : Card.IsEdit (·.addTag tag) := fun _ => ⟨_, _, rfl⟩

theorem isEdit_removeTag (tag : String) : Card.IsEdit (·.removeTag tag) := fun _ => ⟨_, _, rfl⟩

theorem isEdit_changeProperties (name : Option String) (change : PropertyChange) :
    Card.IsEdit (·.changeProperties name change) := fun _ => ⟨_, _, rfl⟩

theorem isEdit_apply (edit : CardEdit) : Card.IsEdit edit.apply := by
  intro card
  cases edit with
  | addTag tag => exact ⟨_, _, rfl⟩
  | removeTag tag => exact ⟨_, _, rfl⟩
  | changeProperty name change => exact ⟨_, _, rfl⟩
  | addProperty property =>
    simp only [CardEdit.apply]
    split
    · exact ⟨_, _, rfl⟩
    · exact ⟨_, _, rfl⟩

theorem course_modifyCards {change : Card → Card} (hedits : Card.IsEdit change)
    (handles : List Handle) (engine : Engine) :
    Course allowed stage engine (engine.modifyCards handles change) := by
  induction handles generalizing engine with
  | nil => exact .refl stage engine
  | cons handle rest ih => exact .trans (.change (.edit hedits)) (ih _)

/-! ## Effects and rules -/

/-- Two ways to run callbacks are alike for those that the rules of an engine name. -/
def CallbacksAlike (allowed : Operation → Prop) (condition : Engine → Prop)
    (left right : Invoker) : Prop :=
  ∀ engine, condition engine → ∀ rule ∈ engine.rules, ∀ name, Effect.invoke name ∈ rule.effects →
    ∀ context, Alike allowed condition .acting (left name context) (right name context)

theorem CallbacksAlike.ofAll {left right : Invoker}
    (h : ∀ name context, Alike allowed condition .acting (left name context)
      (right name context)) : CallbacksAlike allowed condition left right :=
  fun _ _ _ _ name _ context => h name context

section

variable (hstays : Stays allowed condition) {left right : Invoker}

include hstays

/-- An effect makes changes, and it goes beyond them only through a callback. -/
theorem alike_effect (context : RuleContext) (effect : Effect)
    (hinvoke : ∀ name, effect = .invoke name →
      Alike allowed condition stage (left name context) (right name context)) :
    Alike allowed condition stage (effect.run left context) (effect.run right context) := by
  have hsettle : Settles allowed condition stage settleInside settleInside := settles_settleInside
  cases effect with
  | create templates count =>
    intro engine he
    simp only [Effect.run]
    refine .goingOn (start_get_bind _ _) (start_get_bind _ _) ?_
    by_cases hfactory : engine.factory.isSome = true
    · rw [if_pos hfactory]
      refine Alike.forM hstays (fun id _ => ?_) engine he
      refine .times hstays (.then hstays (alike_assemble hstays hsettle _ id) fun made => ?_) count
      cases made with
      | none => exact .pure ()
      | some card => exact alike_attach hstays hsettle _ card false
    · rw [if_neg hfactory]
      exact Alike.pure () engine he
  | remove selector =>
    intro engine he
    simp only [Effect.run]
    refine .goingOn (start_get_bind _ _) (start_get_bind _ _) ?_
    refine Alike.forM hstays (fun handle _ => ?_) engine he
    refine fun engine he => .map _ ?_
    exact alike_detach hstays hsettle handle false (by simp) engine he
  | changeProperty selector name change =>
    exact .modify fun engine => course_modifyCards (isEdit_changeProperties name change) _ engine
  | addTag selector tag =>
    simp only [Effect.run]
    by_cases htag : tag = ""
    · rw [if_pos htag]
      exact .pure ()
    · rw [if_neg htag]
      exact .modify fun engine => course_modifyCards (isEdit_addTag tag) _ engine
  | removeTag selector tag =>
    exact .modify fun engine => course_modifyCards (isEdit_removeTag tag) _ engine
  | signal selector id payload =>
    intro engine he
    simp only [Effect.run]
    refine .goingOn (start_get_bind _ _) (start_get_bind _ _) ?_
    exact Alike.forM hstays (fun handle _ => alike_raise hstays hsettle _) engine he
  | invoke name => exact hinvoke name rfl

theorem alike_effects (context : RuleContext) (effects : List Effect)
    (hinvoke : ∀ name, Effect.invoke name ∈ effects →
      Alike allowed condition stage (left name context) (right name context)) :
    Alike allowed condition stage (effects.forM (·.run left context))
      (effects.forM (·.run right context)) :=
  .forM hstays fun effect hmem => alike_effect hstays context effect fun name heq =>
    hinvoke name (heq ▸ hmem)

theorem alike_runMatch (found : Match)
    (hinvoke : ∀ name, Effect.invoke name ∈ found.rule.effects →
      Alike allowed condition .acting (left name found.context) (right name found.context)) :
    Alike allowed condition .firing (runMatch left found) (runMatch right found) := by
  intro engine he
  have hfire := alike_effects hstays found.context found.rule.effects hinvoke
    _ (hstays (.fire found.context) he)
  refine .goingOn (start_runMatch ..) (start_runMatch ..) ⟨hfire.same, fun hstart => ?_⟩
  exact .trans (.fire engine found.context) (.effects (hfire.course hstart))

theorem alike_runMatches (chosen : List Match)
    (hinvoke : ∀ found ∈ chosen, ∀ name, Effect.invoke name ∈ found.rule.effects →
      Alike allowed condition .acting (left name found.context) (right name found.context)) :
    Alike allowed condition .firing (runMatches left chosen) (runMatches right chosen) := by
  induction chosen with
  | nil => exact .pure ()
  | cons found rest ih =>
    have hfound := alike_runMatch hstays found (hinvoke found List.mem_cons_self)
    have hrest := ih fun other hmem => hinvoke other (List.mem_cons_of_mem _ hmem)
    unfold runMatches
    refine .then hstays hfound fun _ => ?_
    split
    · exact .pure ()
    · exact hrest

variable (hinvoke : CallbacksAlike allowed condition left right)

include hinvoke

theorem alike_runRules (raised : Raised) :
    Alike allowed condition .firing (runRules left raised) (runRules right raised) := by
  intro engine he
  have hdraw : Course allowed .firing engine (engine.findMatches raised).2 := .draw engine _
  refine .goingOn (start_runRules ..) (start_runRules ..) (.after hdraw ?_)
  refine alike_runMatches hstays _ (fun found hfound name hname => ?_) _ (hdraw.keeps hstays he)
  obtain ⟨hrule, -⟩ := rule_mem_of_mem_choose engine raised hfound
  exact hinvoke engine he found.rule hrule name hname found.context

theorem alike_process (raised : Raised) :
    Alike allowed condition .acting (process left raised) (process right raised) := by
  intro engine he
  have hrules := alike_runRules hstays hinvoke raised _ (hstays .enter he)
  exact .goingOn (start_process ..) (start_process ..) (hrules.closing .process)

/-! ## Pumps -/

theorem alike_drain (limit count : Nat) :
    Alike allowed condition .draining (drain left limit count) (drain right limit count) := by
  induction limit generalizing count with
  | zero => exact .pure count
  | succ limit ih =>
    intro engine he
    cases h : engine.takeNext? with
    | none =>
      exact .ended (start_drain_of_none _ _ h) (start_drain_of_none _ _ h) (.refl .draining engine)
    | some next =>
      -- The event is taken before it is processed, and processing may fail.
      obtain ⟨raised, taken⟩ := next
      refine .goingOn (start_drain_of_some _ _ h) (start_drain_of_some _ _ h)
        (.after (.take h) ?_)
      refine Alike.then hstays ?_ (fun _ => ih (count + 1)) taken (hstays (.take h) he)
      intro engine he
      have hserved := alike_process hstays hinvoke raised engine he
      exact ⟨hserved.same, fun hstart => .serve (hserved.course hstart)⟩

theorem alike_pump (limit : Nat) :
    Alike allowed condition .acting (pump left limit) (pump right limit) := by
  intro engine he
  by_cases hidle : engine.isIdle = true
  · have hdrain := alike_drain hstays hinvoke limit 0 _ (hstays (.startPump hidle) he)
    exact .goingOn (start_pump_of_isIdle _ left limit hidle)
      (start_pump_of_isIdle _ right limit hidle) (hdrain.closing (.pump hidle))
  · exact .ended (start_pump_of_not_isIdle _ left limit hidle)
      (start_pump_of_not_isIdle _ right limit hidle) (.refl .acting engine)

theorem alike_pumpAll :
    Alike allowed condition .acting (pumpAll left) (pumpAll right) :=
  fun engine he => .goingOn (start_pumpAll engine left) (start_pumpAll engine right)
    (alike_pump hstays hinvoke _ engine he)

theorem alike_pumpQuietly :
    Alike allowed condition .acting (pumpQuietly left) (pumpQuietly right) := by
  intro engine he
  have hpump := alike_pumpAll hstays hinvoke engine he
  refine ⟨by rw [start_pumpQuietly, start_pumpQuietly, hpump.same], fun hstart => ?_⟩
  -- An error of the pump is not an error of the operation: it is kept in the engine.
  rw [start_pumpQuietly] at hstart
  obtain ⟨⟨result, after⟩, hpumped, heq⟩ := Option.map_eq_some_iff.1 hstart
  have hway := hpump.course hpumped
  cases result with
  | ok _ =>
    cases heq
    exact hway
  | error error =>
    cases heq
    exact hway.trans (.change (.keepError (some error)))

theorem settles_settle : Settles allowed condition .acting (settle left) (settle right) := by
  intro engine he
  by_cases hempty : engine.forest.outbox.isEmpty = true
  · have hdeliver : engine.deliver = engine := deliver_of_isEmpty hempty
    rw [hdeliver]
    exact .ended (by rw [start_settle, if_pos hempty]) (by rw [start_settle, if_pos hempty])
      (.refl .acting engine)
  · by_cases hpump : (engine.deliver.config.autoPump && engine.deliver.isIdle) = true
    · exact .goingOn (by rw [start_settle, if_neg hempty, if_pos hpump])
        (by rw [start_settle, if_neg hempty, if_pos hpump])
        (alike_pumpQuietly hstays hinvoke _ he)
    · exact .ended (by rw [start_settle, if_neg hempty, if_neg hpump])
        (by rw [start_settle, if_neg hempty, if_neg hpump]) (.refl .acting _)

/-! ## Operations as data -/

omit hstays hinvoke in
theorem alike_addRule (rule : Rule)
    (hasked : allowed (.registerRule rule) ∨
      ∃ rules, rule ∈ rules ∧ allowed (.registerRules rules)) :
    Alike allowed condition .acting (addRule rule) (addRule rule) := by
  intro engine _
  have hstart := start_addRule engine rule
  cases h : engine.registerRule rule with
  | error error =>
    rw [h] at hstart
    exact .ended hstart hstart (.refl .acting engine)
  | ok after =>
    rw [h] at hstart
    exact .ended hstart hstart (.change (.registerRule hasked h))

theorem alike_perform (operation : Operation) (hasked : allowed operation) :
    Alike allowed condition .acting (perform left operation) (perform right operation) := by
  have hsettle := settles_settle hstays hinvoke
  cases operation with
  | addCard card => exact fun engine _ => .ended rfl rfl (.change (.addCard hasked))
  | createCard id => exact .map _ (alike_assemble hstays hsettle _ id)
  | setFactory factory => exact fun engine _ => .ended rfl rfl (.change (.setFactory hasked))
  | registerCard handle =>
    intro engine _
    by_cases hknown : engine.forest.contains handle = true
    · exact .ended ((start_registerCard ..).trans (if_pos hknown))
        ((start_registerCard ..).trans (if_pos hknown)) (.change (.register hasked))
    · exact .ended ((start_registerCard ..).trans (if_neg hknown))
        ((start_registerCard ..).trans (if_neg hknown)) (.refl .acting engine)
  | unregisterCard handle => exact fun engine _ => .ended rfl rfl (.change (.unregister hasked))
  | registerRule rule =>
    exact .then hstays (alike_addRule rule (.inl hasked)) fun _ => .pure _
  | registerRules rules =>
    refine .then hstays (.forM hstays fun rule hmem => ?_) fun _ => .pure _
    exact alike_addRule rule (.inr ⟨rules, hmem, hasked⟩)
  | subscribe handle note =>
    intro engine _
    by_cases hknown : engine.forest.contains handle = true
    · exact .ended ((start_subscribe ..).trans (if_pos hknown))
        ((start_subscribe ..).trans (if_pos hknown)) (.change (.subscribe hasked hknown))
    · exact .ended ((start_subscribe ..).trans (if_neg hknown))
        ((start_subscribe ..).trans (if_neg hknown)) (.refl .acting engine)
  | unsubscribe handle listener =>
    exact fun engine _ => .ended rfl rfl (.change (.unsubscribe hasked))
  | attach parent child intrinsic =>
    exact .then hstays (alike_attach hstays hsettle parent child intrinsic) fun _ => .pure _
  | removeChild parent child force =>
    exact .map _ (alike_removeChild hstays hsettle parent child force fun _ => hasked)
  | detach child force =>
    exact .map _ (alike_detach hstays hsettle child force fun _ => hasked)
  | editCard handle edit =>
    exact fun engine _ => .ended rfl rfl (.change (.edit (isEdit_apply edit)))
  | raise raised => exact .then hstays (alike_raise hstays hsettle raised) fun _ => .pure _
  | tickAll => exact .then hstays (alike_tickAll hstays hsettle hasked) fun _ => .pure _
  | pump limit => exact .map _ (alike_pump hstays hinvoke limit)
  | pumpAll => exact .map _ (alike_pumpAll hstays hinvoke)
  | process raised => exact .then hstays (alike_process hstays hinvoke raised) fun _ => .pure _
  | takePumpError => exact fun engine _ => .ended rfl rfl (.change (.keepError none))

end

/-! ## Programs and runs -/

section

variable {seen : Engine → Prop} (hstays : Stays allowed condition)
  (hseen : ∀ engine, condition engine → seen engine) (alarm : Data)

include hseen

/-- A look at an engine that satisfies the condition changes nothing. -/
theorem start_run_guarded (carryOut : Operation → EngineM Answer) (program : Program α)
    {engine : Engine} (he : condition engine) :
    ((program.guarded seen alarm).run carryOut).start engine =
      (program.run carryOut).start engine := by
  unfold Program.guarded
  rw [Program.start_run_inspect, if_pos (hseen engine he)]

include hstays

theorem alike_watched {carryOut carryOut' : Operation → EngineM Answer}
    (hcarry : ∀ operation, allowed operation →
      Alike allowed condition .acting (carryOut operation) (carryOut' operation))
    (program : Program α) (hasks : program.AsksOnly allowed) :
    Alike allowed condition .acting (program.run carryOut)
      ((program.watched seen alarm).run carryOut') := by
  induction program with
  | done value =>
    intro engine he
    exact .ended rfl (start_run_guarded hseen alarm carryOut' _ he) (.refl .acting engine)
  | fail error =>
    intro engine he
    exact .ended rfl (start_run_guarded hseen alarm carryOut' _ he) (.refl .acting engine)
  | perform operation next ih =>
    intro engine he
    refine .goingOn rfl (start_run_guarded hseen alarm carryOut' _ he) ?_
    -- The program goes on after an error too, so the outcome is a value here.
    have hoperation := hcarry operation hasks.1 engine he
    have hasked : AlikeFrom allowed .acting engine (carryOut operation).outcome
        (carryOut' operation).outcome engine := by
      refine ⟨by rw [start_outcome, start_outcome, hoperation.same], fun hstart => ?_⟩
      rw [start_outcome] at hstart
      obtain ⟨⟨outcome, after⟩, hl, heq⟩ := Option.map_eq_some_iff.1 hstart
      cases heq
      exact hoperation.course hl
    exact hasked.bind fun {outcome after} _ hway =>
      .after hway (ih outcome (hasks.2 outcome) after (hway.keeps hstays he))
  | inspect next ih =>
    intro engine he
    have hright := start_run_guarded hseen alarm carryOut'
      (.inspect fun engine => (next engine).watched seen alarm) he
    exact .goingOn (Program.start_run_inspect ..) (hright.trans (Program.start_run_inspect ..))
      (ih engine (hasks engine) engine he)
  | note data next ih =>
    intro engine he
    have hright := start_run_guarded hseen alarm carryOut'
      (.note data (next.watched seen alarm)) he
    have hchange : Change allowed engine (engine.record (.noted data)) := .note data
    exact .goingOn (Program.start_run_note ..) (hright.trans (Program.start_run_note ..))
      (.after (.change hchange) (ih hasks _ (hstays (.change hchange) he)))

theorem alike_invoker {callbacks : Callbacks} (hasks : callbacks.AskOnly allowed) (depth : Nat)
    (name : CallbackName) (context : RuleContext) :
    Alike allowed condition .acting (invoker callbacks depth name context)
      (invoker (fun name context => (callbacks name context).watched seen alarm) depth name
        context) := by
  -- With no depth left a callback has no outcome, and so nothing to answer for.
  induction depth generalizing name context with
  | zero => exact fun engine _ => ⟨rfl, fun hstart => by simp [invoker] at hstart⟩
  | succ depth ih =>
    exact alike_watched hstays hseen alarm (alike_perform hstays (.ofAll ih)) _
      (hasks name context)

end

/-- What a callback does is a course. -/
theorem follows_invoker {callbacks : Callbacks} (hcallbacks : callbacks.AskOnly allowed)
    (depth : Nat) (name : CallbackName) (context : RuleContext) :
    Alike allowed (fun _ => True) .acting (invoker callbacks depth name context)
      (invoker callbacks depth name context) := by
  have halike := alike_invoker stays_true (fun _ => id) .null hcallbacks depth name context
  exact fun engine _ => ⟨rfl, (halike engine trivial).course⟩

/-- What the rules for an event do is a course. -/
theorem course_of_runRules {callbacks : Callbacks} (hcallbacks : callbacks.AskOnly allowed)
    {depth : Nat} {raised : Raised} {engine after : Engine} {outcome : Except Error Unit}
    (h : (runRules (invoker callbacks depth) raised).start engine = some (outcome, after)) :
    Course allowed .firing engine after :=
  (alike_runRules stays_true (.ofAll (follows_invoker hcallbacks depth)) raised engine
    trivial).course h

/-- What an operation does is a course. -/
theorem course_of_perform {callbacks : Callbacks} (hcallbacks : callbacks.AskOnly allowed)
    {depth : Nat} {operation : Operation} (hasked : allowed operation) {engine after : Engine}
    {outcome : Except Error Answer}
    (h : (perform (invoker callbacks depth) operation).start engine = some (outcome, after)) :
    Course allowed .acting engine after :=
  (alike_perform stays_true (.ofAll (follows_invoker hcallbacks depth)) operation hasked engine
    trivial).course h

/-- Every run is a course. -/
theorem course_of_run {callbacks : Callbacks} (hcallbacks : callbacks.AskOnly allowed) {depth : Nat}
    {program : Program α} (hprogram : program.AsksOnly allowed) {engine after : Engine}
    {result : Except Error α} (h : run callbacks depth program engine = some (result, after)) :
    Course allowed .acting engine after := by
  have hperform : ∀ operation, allowed operation →
      Alike allowed (fun _ => True) .acting (perform (invoker callbacks depth) operation)
        (perform (invoker callbacks depth) operation) :=
    alike_perform stays_true (.ofAll (follows_invoker hcallbacks depth))
  have halike := alike_watched stays_true (fun _ => id) .null hperform program hprogram
  exact (halike engine trivial).course h

/-- A condition that each step keeps holds throughout a run and at its end. -/
theorem upholds_of_stays {seen : Engine → Prop} (hstays : Stays allowed condition)
    (hseen : ∀ engine, condition engine → seen engine) {callbacks : Callbacks}
    (hcallbacks : callbacks.AskOnly allowed) (depth : Nat) {program : Program α}
    (hprogram : program.AsksOnly allowed) {engine : Engine} (he : condition engine) :
    Upholds seen callbacks depth program engine where
  throughout alarm := ((alike_watched hstays hseen alarm
    (alike_perform hstays (.ofAll (alike_invoker hstays hseen alarm hcallbacks depth))) program
    hprogram)
      engine he).same.symm
  final hrun := hseen _ ((course_of_run hcallbacks hprogram hrun).keeps hstays he)

end CardRules.Engine
