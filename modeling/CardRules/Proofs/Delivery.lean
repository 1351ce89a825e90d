import CardRules.Engine.Pump

/-!
What the delivery of events leaves alone. Handing out the outbox writes the queues and the journal,
and nothing else of the engine changes but the outbox itself.
-/

namespace CardRules.Engine

/-- What is kept when the scheduler takes an event of the outbox on, and when a listener hears one,
is kept by delivery. Only events of known cards are taken on. -/
theorem deliver_keeps_of_mem {condition : Engine → Prop} {engine : Engine}
    (henqueue : ∀ raised ∈ engine.forest.outbox, ∀ after,
      after.forest.contains raised.source = true → condition after →
        condition (enqueue after raised))
    (hheard : ∀ listener note raised after, condition after →
      condition (record after (.heard listener note raised)))
    (h : condition { engine with forest := engine.forest.emptied }) :
    condition engine.deliver := by
  -- First for one listener, then for all listeners of one event, and then for the whole outbox.
  have hhand : ∀ raised ∈ engine.forest.outbox, ∀ after listener,
      after.forest.contains raised.source = true → condition after →
        (hand raised after listener).forest = after.forest ∧
          condition (hand raised after listener) := by
    intro raised hmem after listener hknown h
    cases listener with
    | scheduler =>
      refine ⟨?_, henqueue raised hmem after hknown h⟩
      simp only [hand, enqueue]
      split <;> rfl
    | external id =>
      simp only [hand]
      split
      · exact ⟨rfl, hheard _ _ _ _ h⟩
      · exact ⟨rfl, h⟩
  have hannounce : ∀ raised ∈ engine.forest.outbox, ∀ after,
      condition after → condition (announce after raised) := by
    intro raised hmem after h
    unfold announce
    split
    next card hcard =>
      have hall : ∀ (listeners : List Listener) (later : Engine),
          later.forest.contains raised.source = true → condition later →
            condition (listeners.foldl (hand raised) later) := by
        intro listeners
        induction listeners with
        | nil => exact fun _ _ hlater => hlater
        | cons listener rest ih =>
          intro later hknown hlater
          obtain ⟨hforest, hnext⟩ := hhand raised hmem later listener hknown hlater
          exact ih _ (by rw [hforest, hknown]) hnext
      exact hall card.listeners after (Forest.contains_iff.2 ⟨card, hcard⟩) h
    next => exact h
  exact List.foldlRecOn _ _ h fun after h raised hmem => hannounce raised hmem after h

/-- What is kept when the scheduler takes an event on, and when a listener hears one, is kept by
delivery. -/
theorem deliver_keeps {condition : Engine → Prop}
    (henqueue : ∀ raised engine, condition engine → condition (enqueue engine raised))
    (hheard : ∀ listener note raised engine, condition engine →
      condition (record engine (.heard listener note raised)))
    {engine : Engine} (h : condition { engine with forest := engine.forest.emptied }) :
    condition engine.deliver :=
  deliver_keeps_of_mem (fun raised _ after _ => henqueue raised after) hheard h

/-- Delivery empties the outbox, and writes the queues and the journal. -/
theorem deliver_eq (engine : Engine) :
    ∃ queue deferred journal, engine.deliver =
      { engine with forest := engine.forest.emptied, queue, deferred, journal } := by
  refine @deliver_keeps (fun after => ∃ queue deferred journal,
    after = { engine with forest := engine.forest.emptied, queue, deferred, journal })
    ?_ ?_ engine ⟨_, _, _, rfl⟩
  · rintro raised _ ⟨queue, deferred, journal, rfl⟩
    unfold enqueue
    split
    · exact ⟨_, _, _, rfl⟩
    · exact ⟨_, _, _, rfl⟩
  · rintro listener note raised _ ⟨queue, deferred, journal, rfl⟩
    exact ⟨_, _, _, rfl⟩

/-- With nothing in the outbox there is nothing to deliver. -/
theorem deliver_of_isEmpty {engine : Engine} (h : engine.forest.outbox.isEmpty = true) :
    engine.deliver = engine := by
  have hnil : engine.forest.outbox = [] := List.isEmpty_iff.1 h
  have hemptied : engine.forest.emptied = engine.forest := by
    unfold Forest.emptied
    rw [← hnil]
  unfold deliver
  rw [hnil, hemptied]
  rfl

/-! ## What stays -/

section

variable (engine : Engine)

@[simp] theorem forest_deliver : engine.deliver.forest = engine.forest.emptied := by
  obtain ⟨_, _, _, h⟩ := deliver_eq engine
  rw [h]

@[simp] theorem registry_deliver : engine.deliver.registry = engine.registry := by
  obtain ⟨_, _, _, h⟩ := deliver_eq engine
  rw [h]

@[simp] theorem factory_deliver : engine.deliver.factory = engine.factory := by
  obtain ⟨_, _, _, h⟩ := deliver_eq engine
  rw [h]

@[simp] theorem depth_deliver : engine.deliver.depth = engine.depth := by
  obtain ⟨_, _, _, h⟩ := deliver_eq engine
  rw [h]

@[simp] theorem pumping_deliver : engine.deliver.pumping = engine.pumping := by
  obtain ⟨_, _, _, h⟩ := deliver_eq engine
  rw [h]

@[simp] theorem isIdle_deliver : engine.deliver.isIdle = engine.isIdle := by
  unfold isIdle
  rw [pumping_deliver, depth_deliver]

@[simp] theorem config_deliver : engine.deliver.config = engine.config := by
  obtain ⟨_, _, _, h⟩ := deliver_eq engine
  rw [h]

@[simp] theorem rules_deliver : engine.deliver.rules = engine.rules := by
  obtain ⟨_, _, _, h⟩ := deliver_eq engine
  rw [h]

@[simp] theorem generator_deliver : engine.deliver.generator = engine.generator := by
  obtain ⟨_, _, _, h⟩ := deliver_eq engine
  rw [h]

end

end CardRules.Engine
