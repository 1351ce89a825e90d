import CardRules.Decimal.Amount
import CardRules.Event

/-!
What can go wrong, as causes, with the wording in one place.
-/

namespace CardRules

/-- Why a rule is not valid. -/
inductive RuleFault where
  /-- The name is blank. -/
  | blankName
  /-- An event id is asked for on a trigger whose events have none. -/
  | idOnTrigger (trigger : EventKind)
  /-- A chance is not a probability. -/
  | chanceOutsideUnit (probability : Float)
  /-- The most cards a selection may have is less than the fewest. -/
  | emptyBounds (min max : Nat)

/-- Why a template is not valid. -/
inductive TemplateFault where
  /-- The id is empty. -/
  | emptyId
  /-- The parts of a template nest deeper than the limit. -/
  | partsTooDeep (id : String) (limit : Nat)

/-- Why an operation fails. -/
inductive Error where
  /-- A handle names no card. -/
  | unknownCard (handle : Handle)
  /-- The card to attach has an owner. -/
  | alreadyOwned (child owner : Handle)
  /-- A card was to be attached to itself. -/
  | selfOwnership (handle : Handle)
  /-- A card was to be attached below itself. -/
  | ownershipCycle (child parent : Handle)
  /-- A rule of this name is in the table. -/
  | duplicateRule (name : String)
  | invalidRule (name : String) (fault : RuleFault)
  /-- A text names no category. -/
  | invalidCategory (text : String)
  | invalidTemplate (fault : TemplateFault)
  /-- A file is missing or is not UTF-8 text. -/
  | unreadable
  /-- A document is not well-formed, or not of the expected shape. -/
  | malformed

/-- The wording of a rule's fault. -/
def RuleFault.message : RuleFault → String
  | .blankName => "rule name is empty"
  | .idOnTrigger trigger => "custom id filter on a " ++ trigger.name ++ " trigger"
  | .chanceOutsideUnit probability =>
    "chance probability " ++ Decimal.amountText probability ++ " is outside [0, 1]"
  | .emptyBounds min max =>
    "select bounds [" ++ toString min ++ ", " ++ toString max ++ "] are empty"

/-- The wording of a template's fault. -/
def TemplateFault.message : TemplateFault → String
  | .emptyId => "template id is empty"
  | .partsTooDeep id limit =>
    "intrinsic parts of '" ++ id ++ "' nest deeper than " ++ toString limit

/-- The wording of an error. -/
def Error.message : Error → String
  | .unknownCard handle => "Card not found: " ++ handle.text
  | .alreadyOwned child owner =>
    "Card " ++ child.text ++ " already has an owner (" ++ owner.text ++ ")"
  | .selfOwnership handle => "Card " ++ handle.text ++ " cannot own itself"
  | .ownershipCycle child parent =>
    "Card " ++ child.text ++ " is an ancestor of " ++ parent.text
  | .duplicateRule name => "Rule already registered: " ++ name
  | .invalidRule name fault => "Invalid rule '" ++ name ++ "': " ++ fault.message
  | .invalidCategory text => "Invalid card category: " ++ text
  | .invalidTemplate fault => "Invalid template: " ++ fault.message
  | .unreadable => "File cannot be read"
  | .malformed => "Document cannot be read"

end CardRules
