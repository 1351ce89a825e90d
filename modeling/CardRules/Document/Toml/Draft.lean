import CardRules.Document.Toml.Statement

/-!
TOML documents: statements put together into one table. The section that a header opens is built
apart and takes its place in the document when the next header comes, or the end.
-/

namespace CardRules.Document.Toml

/-- A document while its statements are read: the sections that are done, and the open one with the
path of its header. The lines before the first header have no path. -/
structure Draft where
  done : Table := ⟨.path, []⟩
  current : Table := ⟨.header, []⟩
  path : List String := []
  inArray : Bool := false

namespace Draft

/-- Puts the open section in its place. -/
def close (draft : Draft) : Option Table :=
  let entries := draft.current.entries
  let name := draft.path.getLastD ""
  if draft.path.isEmpty then some draft.current
  else
    draft.done.alter .path
      (fun parent =>
        match parent.find? name with
        | none =>
          some (parent.put name
            (if draft.inArray then .tables [entries] else .table .header entries))
        | some (.tables older) =>
          if draft.inArray then some (parent.put name (.tables (entries :: older))) else none
        | some _ => none)
      draft.path.dropLast

/-- Opens the section of a table. A table that only led to others so far is taken up again;
anything else of that name is in the way. -/
def openTable (done : Table) (path : List String) : Option Draft := do
  let name := path.getLastD ""
  let parent ← done.follow path.dropLast
  match parent.find? name with
  | none => return { done, path }
  | some (.table .path entries) =>
    -- Its entries go on in the open section, and come back when that is closed.
    let without ← done.alter .path (fun parent => some (parent.drop name)) path.dropLast
    return { done := without, current := ⟨.header, entries⟩, path }
  | some _ => none

/-- Opens the section of a new table at the end of an array of tables. -/
def openArray (done : Table) (path : List String) : Option Draft := do
  let parent ← done.follow path.dropLast
  match parent.find? (path.getLastD "") with
  | none | some (.tables _) => return { done, path, inArray := true }
  | some _ => none

/-- Takes a statement in. -/
def take (draft : Draft) : Statement → Option Draft
  | .assign key data => do return { draft with current := ← draft.current.assign key data }
  | .header path => do openTable (← draft.close) path
  | .arrayHeader path => do openArray (← draft.close) path

end Draft

/-- Reads a TOML document. -/
def read? (source : String) : Option Data := do
  let statements ← statements.readAll source
  let draft ← statements.foldlM Draft.take {}
  return (← draft.close).toData

end CardRules.Document.Toml
