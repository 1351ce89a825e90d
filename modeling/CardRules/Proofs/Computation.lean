import CardRules.Engine.Program

/-!
What a computation on an engine does, one equation for each way to build it. Later proofs open
computations by these equations only.
-/

namespace CardRules.EngineM

variable {α β : Type}

@[simp] theorem start_pure (value : α) (engine : Engine) :
    (pure value : EngineM α).start engine = some (.ok value, engine) := rfl

@[simp] theorem start_throw (error : Error) (engine : Engine) :
    (throw error : EngineM α).start engine = some (.error error, engine) := rfl

@[simp] theorem start_never (engine : Engine) : (never : EngineM α).start engine = none := rfl

@[simp] theorem start_get (engine : Engine) :
    (get : EngineM Engine).start engine = some (.ok engine, engine) := rfl

@[simp] theorem start_set (engine after : Engine) :
    (set after : EngineM Unit).start engine = some (.ok (), after) := rfl

@[simp] theorem start_modify (change : Engine → Engine) (engine : Engine) :
    (modify change : EngineM Unit).start engine = some (.ok (), change engine) := rfl

@[simp] theorem start_modifyGet (change : Engine → α × Engine) (engine : Engine) :
    (modifyGet change : EngineM α).start engine =
      some (.ok (change engine).1, (change engine).2) := rfl

@[simp] theorem start_liftM (result : Except Error α) (engine : Engine) :
    (liftM result : EngineM α).start engine = some (result, engine) := by
  cases result <;> rfl

@[simp] theorem start_outcome (action : EngineM α) (engine : Engine) :
    action.outcome.start engine =
      (action.start engine).map fun (result, after) => (.ok result, after) := rfl

@[simp] theorem start_thenAlways (action : EngineM α) (change : Engine → Engine)
    (engine : Engine) :
    (action.thenAlways change).start engine =
      (action.start engine).map fun (result, after) => (result, change after) := rfl

/-- The second part of a computation starts where the first one ended, unless that failed. -/
theorem start_bind (action : EngineM α) (next : α → EngineM β) (engine : Engine) :
    (action >>= next).start engine =
      match action.start engine with
      | none => none
      | some (.ok value, after) => (next value).start after
      | some (.error error, after) => some (.error error, after) := by
  simp only [start, ExceptT.run_bind, StateT.run_bind]
  rcases StateT.run (ExceptT.run action) engine with _ | ⟨_ | value, after⟩ <;> rfl

/-- Where both parts of a computation together end with a value, each of them does. -/
theorem exists_of_start_bind_eq_ok {action : EngineM α} {next : α → EngineM β}
    {engine after : Engine} {value : β}
    (h : (action >>= next).start engine = some (.ok value, after)) :
    ∃ first middle, action.start engine = some (.ok first, middle) ∧
      (next first).start middle = some (.ok value, after) := by
  rw [start_bind] at h
  split at h
  next => cases h
  next first middle hfirst => exact ⟨first, middle, hfirst, h⟩
  next => cases h

theorem start_map (change : α → β) (action : EngineM α) (engine : Engine) :
    (change <$> action).start engine =
      (action.start engine).map fun (result, after) => (result.map change, after) := by
  simp only [start, ExceptT.run_map, StateT.run_map]
  rcases StateT.run (ExceptT.run action) engine with _ | ⟨_ | value, after⟩ <;> rfl

/-! ## A step whose outcome is known -/

@[simp] theorem start_get_bind (next : Engine → EngineM α) (engine : Engine) :
    (get >>= next).start engine = (next engine).start engine := by
  rw [start_bind, start_get]

@[simp] theorem start_set_bind (after : Engine) (next : Unit → EngineM α) (engine : Engine) :
    (set after >>= next).start engine = (next ()).start after := by
  rw [start_bind, start_set]

@[simp] theorem start_modify_bind (change : Engine → Engine) (next : Unit → EngineM α)
    (engine : Engine) :
    (modify change >>= next).start engine = (next ()).start (change engine) := by
  rw [start_bind, start_modify]

@[simp] theorem start_modifyGet_bind (change : Engine → α × Engine) (next : α → EngineM β)
    (engine : Engine) :
    (modifyGet change >>= next).start engine =
      (next (change engine).1).start (change engine).2 := by
  rw [start_bind, start_modifyGet]

@[simp] theorem start_throw_bind (error : Error) (next : α → EngineM β) (engine : Engine) :
    (throw error >>= next).start engine = some (.error error, engine) := by
  rw [start_bind, start_throw]

theorem start_outcome_bind (action : EngineM α) (next : Except Error α → EngineM β)
    (engine : Engine) :
    (action.outcome >>= next).start engine =
      (action.start engine).bind fun (result, after) => (next result).start after := by
  rw [start_bind, start_outcome]
  rcases action.start engine with _ | ⟨result, after⟩ <;> rfl

theorem start_discard (action : EngineM α) (engine : Engine) :
    (discard action).start engine =
      (action.start engine).map fun (result, after) => (result.map fun _ => (), after) :=
  start_map _ action engine

/-- The values after the first one are gone through where the first one ended. -/
theorem start_forM_cons (next : α → EngineM Unit) (value : α) (rest : List α)
    {engine middle : Engine} (h : (next value).start engine = some (.ok (), middle)) :
    ((value :: rest).forM next).start engine = (rest.forM next).start middle := by
  show (next value >>= fun _ => rest.forM next).start engine = _
  rw [start_bind, h]

end CardRules.EngineM
