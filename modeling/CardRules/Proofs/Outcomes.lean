import CardRules.Proofs.Computation

/-!
What each operation of the engine does, one equation for each: the outcome from an engine, in terms
of the parts that the operation is made of.
-/

namespace CardRules.Engine

open EngineM

variable (engine : Engine)

/-! ## Operations that raise events -/

section

variable (settle : EngineM Unit)

theorem start_attach (parent child : Handle) (intrinsic : Bool) :
    (attach settle parent child intrinsic).start engine =
      match engine.forest.attach parent child intrinsic with
      | .error error => some (.error error, engine)
      | .ok forest => settle.start { engine with forest } := by
  unfold attach
  rw [start_get_bind, start_bind, start_liftM]
  cases engine.forest.attach parent child intrinsic <;> rfl

theorem start_removeChild (parent child : Handle) (force : Bool) :
    (removeChild settle parent child force).start engine =
      match engine.forest.remove? parent child force with
      | some forest => ((fun _ => true) <$> settle).start { engine with forest }
      | none => ((fun _ => false) <$> settle).start engine := by
  unfold removeChild
  rw [start_get_bind]
  cases engine.forest.remove? parent child force <;> rfl

theorem start_detach (child : Handle) (force : Bool) :
    (detach settle child force).start engine =
      match engine.forest.detach? child force with
      | some forest => ((fun _ => true) <$> settle).start { engine with forest }
      | none => ((fun _ => false) <$> settle).start engine := by
  unfold detach
  rw [start_get_bind]
  cases engine.forest.detach? child force <;> rfl

theorem start_raise (raised : Raised) :
    (raise settle raised).start engine =
      if engine.forest.contains raised.source then
        settle.start { engine with forest := engine.forest.emit raised.source raised.event }
      else some (.error (.unknownCard raised.source), engine) := by
  unfold raise
  rw [start_get_bind]
  by_cases h : engine.forest.contains raised.source = true <;> simp [h]

theorem start_tickAll :
    (tickAll settle).start engine =
      settle.start { engine with
        forest := engine.registry.handles.foldl (·.emit · .tick) engine.forest } := rfl

/-- Makes a part of a card, and attaches it if the factory knows it. -/
def addPart (levels : Nat) (owner : Handle) (part : String) : EngineM Unit := do
  match ← assemble settle levels part with
  | some child => attach settle owner child true
  | none => pure ()

theorem start_assemble_succ (levels : Nat) (id : String) :
    (assemble settle (levels + 1) id).start engine =
      match engine.factory.bind fun factory => (factory.make? id).map (factory.parts id, ·) with
      | none => some (.ok none, engine)
      | some (parts, card) =>
        ((fun _ => some engine.forest.next) <$>
          parts.forM (addPart settle levels engine.forest.next)).start (engine.addCard card) := by
  unfold assemble
  rw [start_get_bind]
  cases engine.factory with
  | none => rfl
  | some factory => cases h : factory.make? id <;> simp only [h, Option.bind_some] <;> rfl

end

/-! ## Events -/

section

variable (invoke : Invoker)

theorem start_runMatch (found : Match) :
    (runMatch invoke found).start engine =
      (found.rule.effects.forM (·.run invoke found.context)).start
        (engine.record (.fired engine.depth found.context)) := rfl

theorem start_runRules (raised : Raised) :
    (runRules invoke raised).start engine =
      (runMatches invoke (engine.config.choose (engine.findMatches raised).1)).start
        (engine.findMatches raised).2 := by
  unfold runRules
  rw [start_modifyGet_bind, start_get_bind]
  rfl

theorem start_process (raised : Raised) :
    (process invoke raised).start engine =
      ((runRules invoke raised).thenAlways leave).start engine.enter := rfl

theorem process_eq_some {engine left : Engine} {raised : Raised} {outcome : Except Error Unit}
    (h : (process invoke raised).start engine = some (outcome, left)) :
    ∃ after, (runRules invoke raised).start engine.enter = some (outcome, after) ∧
      left = after.leave := by
  rw [start_process, start_thenAlways] at h
  obtain ⟨⟨outcome, after⟩, hrules, heq⟩ := Option.map_eq_some_iff.1 h
  obtain ⟨rfl, rfl⟩ := Prod.mk.inj heq
  exact ⟨after, hrules, rfl⟩

theorem start_drain_of_none {left count : Nat} (h : engine.takeNext? = none) :
    (drain invoke (left + 1) count).start engine = some (.ok count, engine) := by
  rw [drain, start_get_bind, h]
  rfl

theorem start_drain_of_some {left count : Nat} {raised : Raised} {taken : Engine}
    (h : engine.takeNext? = some (raised, taken)) :
    (drain invoke (left + 1) count).start engine =
      (process invoke raised >>= fun _ => drain invoke left (count + 1)).start taken := by
  rw [drain, start_get_bind, h]
  rfl

theorem start_pump_of_isIdle (limit : Nat) (h : engine.isIdle = true) :
    (pump invoke limit).start engine =
      ((drain invoke limit 0).thenAlways fun after => { after with pumping := false }).start
        { engine with pumping := true } := by
  unfold pump
  rw [start_get_bind, if_pos h, start_modify_bind]

theorem start_pump_of_not_isIdle (limit : Nat) (h : ¬ engine.isIdle = true) :
    (pump invoke limit).start engine = some (.ok 0, engine) := by
  unfold pump
  rw [start_get_bind, if_neg h]
  rfl

theorem start_pumpAll :
    (pumpAll invoke).start engine = (pump invoke engine.config.maxEventsPerPump).start engine := by
  unfold pumpAll
  rw [start_get_bind]

/-- A pump on the engine's own account always ends well. -/
theorem start_pumpQuietly :
    (pumpQuietly invoke).start engine =
      ((pumpAll invoke).start engine).map fun
        | (.ok _, after) => (.ok (), after)
        | (.error error, after) => (.ok (), { after with pumpError := some error }) := by
  unfold pumpQuietly
  rw [start_outcome_bind]
  rcases (pumpAll invoke).start engine with _ | ⟨_ | _, after⟩ <;> rfl

theorem start_settle :
    (settle invoke).start engine =
      if engine.forest.outbox.isEmpty then some (.ok (), engine)
      else if engine.deliver.config.autoPump && engine.deliver.isIdle then
        (pumpQuietly invoke).start engine.deliver
      else some (.ok (), engine.deliver) := by
  unfold settle
  rw [start_get_bind]
  by_cases h : engine.forest.outbox.isEmpty = true
  · rw [if_pos h, if_pos h]
    rfl
  · rw [if_neg h, if_neg h, start_modify_bind, start_get_bind]
    split <;> rfl

/-! ## Operations as data -/

theorem start_addRule (rule : Rule) :
    (addRule rule).start engine =
      match engine.registerRule rule with
      | .error error => some (.error error, engine)
      | .ok after => some (.ok (), after) := by
  unfold addRule
  rw [start_get_bind, start_bind, start_liftM]
  cases engine.registerRule rule <;> rfl

theorem start_registerCard (handle : Handle) :
    (perform invoke (.registerCard handle)).start engine =
      if engine.forest.contains handle then
        some (.ok (.flag (!engine.isRegistered handle)), engine.register handle)
      else some (.error (.unknownCard handle), engine) := by
  simp only [perform, start_get_bind]
  by_cases h : engine.forest.contains handle = true
  · simp only [h]
    rfl
  · simp only [h]
    rfl

theorem start_subscribe (handle : Handle) (note : Data) :
    (perform invoke (.subscribe handle note)).start engine =
      if engine.forest.contains handle then
        some (.ok (.listener engine.nextListener), engine.subscribe handle note)
      else some (.error (.unknownCard handle), engine) := by
  simp only [perform, start_get_bind]
  by_cases h : engine.forest.contains handle = true
  · simp only [h]
    rfl
  · simp only [h]
    rfl

end

end CardRules.Engine

/-! ## Programs -/

namespace CardRules.Program

open EngineM

variable {α : Type} (carryOut : Operation → EngineM Answer) (engine : Engine)

theorem start_run_inspect (next : Engine → Program α) :
    ((Program.inspect next).run carryOut).start engine =
      ((next engine).run carryOut).start engine := by
  rw [run, start_get_bind]

theorem start_run_note (data : Data) (next : Program α) :
    ((Program.note data next).run carryOut).start engine =
      (next.run carryOut).start (engine.record (.noted data)) := by
  rw [run, start_modify_bind]

end CardRules.Program
