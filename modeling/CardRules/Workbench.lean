import CardRules.Document.Load
import CardRules.Engine.Program

/-!
The workbench: a small session that sets up a bench with a knife, resin and a stick, uses the knife, and
shows the bench before and after.
-/

namespace CardRules.Workbench

/-! ## Views -/

/-- Two spaces for every level. -/
def indentation (level : Nat) : String := "".pushn ' ' (2 * level)

theorem indentation_eq (level : Nat) :
    indentation level = String.ofList (List.replicate (2 * level) ' ') := by
  unfold indentation String.pushn
  induction 2 * level with
  | zero => rfl
  | succ count ih =>
    rw [Nat.repeat, ih, List.replicate_succ', String.ofList_append, String.push_eq_append]
    rfl

/-- The text of a card: its key, its name in quotes, its category unless it is a structure, and its
tags. -/
def cardText (card : Card) : String :=
  let key := (card.key?.map Key.text).getD card.id
  let category := if card.category = .building then "" else " <" ++ card.category.name ++ ">"
  key ++ " \"" ++ card.name ++ "\"" ++ category ++
    " [" ++ String.intercalate ", " card.tags.toList ++ "]"

/-- The text of a card begins with what the card is known by, and its name. -/
theorem exists_cardText_eq (card : Card) :
    ∃ rest, cardText card =
      (card.key?.map Key.text).getD card.id ++ (" \"" ++ card.name ++ "\"" ++ rest) := by
  refine ⟨(if card.category = .building then "" else " <" ++ card.category.name ++ ">") ++
    " [" ++ String.intercalate ", " card.tags.toList ++ "]", ?_⟩
  unfold cardText
  simp only [String.append_assoc]

/-- The text of a property: its name and the value in effect. -/
def propertyText (property : Property) : String :=
  property.name ++ " = " ++ Decimal.amountText property.value

/-- A line of a view, with its level: a card, or a property of the card above. -/
inductive Line where
  | card (level : Nat) (handle : Handle) (card : Card)
  | property (level : Nat) (property : Property)

/-- The text of a line. A property stands one level deeper than its card. -/
def Line.text : Line → String
  | .card level _ shown => indentation level ++ cardText shown
  | .property level shown => indentation (level + 1) ++ propertyText shown

/-- The lines of a card, its properties and everything below it, at most so many levels of it. -/
def treeLines (forest : Forest) : Nat → Handle → Nat → List Line
  | 0, _, _ => []
  | levels + 1, handle, level =>
    match forest.get? handle with
    | none => []
    | some card =>
      .card level handle card :: card.properties.map (.property level) ++
        card.children.flatMap fun child => treeLines forest levels child (level + 1)

/-- The lines of a card and everything below it. No chain of cards is longer than the forest has
cards. -/
def view (forest : Forest) (root : Handle) : List Line := treeLines forest forest.size root 1

/-! ## The session -/

/-- Writes lines into the journal. -/
def write (lines : List String) : Program Unit := lines.forM fun line => .note (.text line) (.done ())

/-- Makes a card, if the catalog has it. -/
def make (id : String) : Program (Option Handle) := do
  match ← Program.request (.createCard id) with
  | .card handle => return handle
  | _ => return none

/-- Makes a card, if the catalog has it, and puts it on the bench. -/
def place (bench : Handle) (id : String) : Program (Option Handle) := do
  let made ← make id
  if let some card := made then
    discard (Program.request (.attach bench card false))
  return made

/-- Shows the bench under a title. -/
def report (title : String) (bench : Handle) : Program Unit := do
  write [title]
  write ((view (← Program.look).forest bench).map Line.text)

/-- The session. Without a template for the bench there is nothing to do. -/
def session (rules : List Rule) : Program Unit := do
  discard (Program.request (.registerRules rules))
  if let some bench ← make "workbench" then
    let knife ← place bench "knife"
    discard (place bench "resin")
    discard (place bench "stick")
    report "Before:" bench
    if let some knife := knife then
      discard (Program.request (.use knife))
      discard (Program.request .pumpAll)
    report "After:" bench

/-! ## Documents in, lines out -/

/-- The bytes of the documents that a session starts from, as far as there are such files. The
settings are optional. -/
structure Sources where
  templates : Option ByteArray
  rules : Option ByteArray
  config : Option (Option ByteArray) := none

/-- The lines that were shown, and the error that ended the session, if one did. A name that holds line
ends spreads its line over several lines of output. -/
structure Outcome where
  lines : List String
  error : Option Error

/-- The lines in a journal. -/
def shown (journal : Array Entry) : List String :=
  journal.toList.filterMap fun
    | .noted (.text line) => some line
    | _ => none

/-- Loads the documents of a session: the settings, then the templates, then the rules. -/
def load (sources : Sources) : Except Error (Engine × List Rule) := do
  -- Settings that are wrong are reported even if the other documents are wrong too.
  let config ←
    match sources.config with
    | some bytes => Document.loadConfig (← Document.fileText bytes)
    | none => pure {}
  let catalog ← Document.loadCatalog (← Document.fileText sources.templates)
  let rules ← Document.loadRules (← Document.fileText sources.rules)
  return (.new config (some (.ofCatalog catalog)), rules)

/-- Runs a session from its documents. Rules from a document run no callbacks, so none are given. -/
def run (sources : Sources) : Outcome :=
  match load sources with
  | .error error => ⟨[], some error⟩
  | .ok (engine, rules) =>
    match engine.run (fun _ _ => .done ()) 0 (session rules) with
    | none => ⟨[], none⟩
    | some (.ok (), after) => ⟨shown after.journal, none⟩
    | some (.error error, after) => ⟨shown after.journal, some error⟩

end CardRules.Workbench
