import CardRules.Engine.Operation

/-!
Programs: what callers and callbacks do with an engine. A program asks for operations one after the
other, may look at the engine in between, and may write notes into the journal; there is no other
way to act on an engine.

A callback is a program, and a program can have events processed that run callbacks again. How deep
that may go is bounded by a number; a run that goes deeper has no outcome.
-/

namespace CardRules

/-- A program that ends with a value or an error. After an operation it goes on with the answer or
the error of that operation. -/
inductive Program (α : Type) where
  | done (value : α)
  | fail (error : Error)
  | perform (operation : Operation) (next : Except Error Answer → Program α)
  | inspect (next : Engine → Program α)
  | note (data : Data) (next : Program α)

namespace Program

/-- Goes on with another program after the value of the first. -/
def andThen {α β : Type} (next : α → Program β) : Program α → Program β
  | .done value => next value
  | .fail error => .fail error
  | .perform operation rest => .perform operation fun outcome => andThen next (rest outcome)
  | .inspect rest => .inspect fun engine => andThen next (rest engine)
  | .note data rest => .note data (andThen next rest)

instance : Monad Program where
  pure := .done
  bind program next := andThen next program

/-- Asks for an operation; its error is the program's. -/
def request (operation : Operation) : Program Answer :=
  .perform operation fun
    | .ok answer => .done answer
    | .error error => .fail error

/-- Looks at the engine. -/
def look : Program Engine := .inspect .done

/-- The outcome of a program as a value; an error no longer ends anything. -/
def attempt {α : Type} : Program α → Program (Except Error α)
  | .done value => .done (.ok value)
  | .fail error => .done (.error error)
  | .perform operation rest => .perform operation fun outcome => attempt (rest outcome)
  | .inspect rest => .inspect fun engine => attempt (rest engine)
  | .note data rest => .note data (attempt rest)

/-- Runs a program, given how operations are carried out. -/
def run {α : Type} (perform : Operation → EngineM Answer) : Program α → EngineM α
  | .done value => pure value
  | .fail error => throw error
  | .perform operation next => do
    let outcome ← (perform operation).outcome
    run perform (next outcome)
  | .inspect next => do
    let engine ← get
    run perform (next engine)
  | .note data next => do
    modify (·.record (.noted data))
    run perform next

end Program

/-- What each callback does in a context. -/
abbrev Callbacks := CallbackName → RuleContext → Program Unit

namespace Engine

/-- Runs a callback that may go so many callbacks deep. -/
def invoker (callbacks : Callbacks) : Nat → Invoker
  | 0 => fun _ _ => EngineM.never
  | depth + 1 => fun name context =>
    (callbacks name context).run (perform (invoker callbacks depth))

/-- Runs a program on an engine, with callbacks that go at most so many callbacks deep. -/
def run {α : Type} (callbacks : Callbacks) (depth : Nat) (program : Program α)
    (engine : Engine) : Option (Except Error α × Engine) :=
  (program.run (perform (invoker callbacks depth))).start engine

end Engine

end CardRules
