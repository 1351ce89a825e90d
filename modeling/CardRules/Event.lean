import CardRules.Data
import CardRules.Handle

/-!
Events: what can happen to a card, and what rules react to.
-/

namespace CardRules

/-- The kinds of events. -/
inductive EventKind where
  | added
  | removed
  | tick
  | use
  | custom
deriving DecidableEq

namespace EventKind

/-- Every kind of event. -/
def all : List EventKind := [.added, .removed, .tick, .use, .custom]

/-- The name of a kind of event. -/
def name : EventKind → String
  | .added => "added"
  | .removed => "removed"
  | .tick => "tick"
  | .use => "use"
  | .custom => "custom"

end EventKind

/-- What an event carries: the owner gained or lost, or plain data. -/
inductive Payload where
  | owner (handle : Handle)
  | value (data : Data)

/-- Something that happens to a card. -/
structure Event where
  kind : EventKind
  id : Option String := none
  payload : Option Payload := none

namespace Event

/-- A card came under an owner. -/
def added (owner : Handle) : Event := { kind := .added, payload := some (.owner owner) }

/-- A card left its owner. -/
def removed (owner : Handle) : Event := { kind := .removed, payload := some (.owner owner) }

/-- Time passes for a card. -/
def tick : Event := { kind := .tick }

/-- A card is used. -/
def use : Event := { kind := .use }

/-- A signal of the user's own, told apart by its id. -/
def custom (id : String) (payload : Option Data := none) : Event :=
  { kind := .custom, id := some id, payload := payload.map .value }

/-- The owner that an event tells of. -/
def owner? (event : Event) : Option Handle :=
  match event.payload with
  | some (.owner handle) => some handle
  | _ => none

/-- The text of an event: its kind, with the id in parentheses if it has one. -/
def text (event : Event) : String :=
  match event.id with
  | some id => event.kind.name ++ "(" ++ id ++ ")"
  | none => event.kind.name

end Event

/-- An event together with the card it happens to. -/
structure Raised where
  source : Handle
  event : Event

end CardRules
