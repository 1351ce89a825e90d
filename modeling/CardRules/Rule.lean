import CardRules.Requirement
import CardRules.Text.Blank

/-!
Effects and rules. A rule reacts to events of one kind: if all its requirements hold it gathers a
context, and its effects are carried out in that context.
-/

namespace CardRules

/-- The name of a callback: an action of the user's own, which rules refer to by name. -/
structure CallbackName where
  text : String
deriving DecidableEq

/-- What a rule does when it runs. -/
inductive Effect where
  /-- Makes cards of each template in turn, so many of each, and attaches them to the container. -/
  | create (templates : List String) (count : Nat)
  /-- Detaches the selected cards from their owners; intrinsic children stay. -/
  | remove (selector : Selector)
  /-- Changes the properties of a name of the selected cards, or all their properties. -/
  | changeProperty (selector : Selector) (name : Option String) (change : PropertyChange)
  | addTag (selector : Selector) (tag : String)
  | removeTag (selector : Selector) (tag : String)
  /-- Raises a signal on the selected cards. -/
  | signal (selector : Selector) (id : String) (payload : Option Data)
  /-- Runs a callback. -/
  | invoke (callback : CallbackName)

/-- Options of a rule: to name no card twice among the matched ones, and to be the last rule to run
for its event. -/
structure RulePolicy where
  distinctMatched : Bool := false
  stopOnSuccess : Bool := false
deriving DecidableEq

/-- What a rule runs with: the event and the cards that were gathered for it. -/
structure RuleContext where
  rule : String
  event : Event
  source : Handle
  container : Handle
  matched : List Handle
  maxDepth : Option Nat

/-- What the selectors of a rule's effects are relative to. -/
def RuleContext.selection (context : RuleContext) : Selection :=
  ⟨context.source, context.container, context.matched, context.maxDepth⟩

/-- A rule. `containerDistance` says how far above the source the container is, a negative number
meaning the root; `priority` is smaller for rules that run earlier. -/
structure Rule where
  name : String
  trigger : EventKind
  customId : Option String := none
  containerDistance : Int := 0
  maxDepth : Option Nat := none
  priority : Int := 0
  requirements : List Requirement := []
  effects : List Effect := []
  policy : RulePolicy := {}

namespace Rule

/-- Whether the rule reacts to an event: the kind is that of its trigger, and on custom events
the id is the one asked for, if any. -/
def accepts (rule : Rule) (event : Event) : Bool :=
  event.kind = rule.trigger &&
    match rule.customId with
    | some id => event.kind ≠ .custom || event.id = some id
    | none => true

/-- The first fault of a rule: its name, then its event id, then its requirements in order. -/
def fault? (rule : Rule) : Option RuleFault :=
  if Text.isBlankText rule.name then some .blankName
  else if rule.customId.isSome && rule.trigger ≠ .custom then some (.idOnTrigger rule.trigger)
  else rule.requirements.findSome? Requirement.fault?

/-- Refuses a rule that has a fault. -/
def validate (rule : Rule) : Except Error Unit :=
  match rule.fault? with
  | some fault => .error (.invalidRule rule.name fault)
  | none => .ok ()

/-- Evaluates requirements in order. Each sees the cards that those before it handed over; the
first that fails ends it. -/
def gatherMatched {σ : Type} (toss : Float → StateM σ Bool) (forest : Forest)
    (selection : Selection) : List Requirement → StateM σ (Option (List Handle))
  | [] => pure (some selection.matched)
  | requirement :: rest => do
    match ← requirement.evaluate toss forest selection with
    | some found =>
      gatherMatched toss forest { selection with matched := selection.matched ++ found } rest
    | none => pure none

/-- A list without the repetitions of what came before. -/
def distinct (handles : List Handle) : List Handle :=
  handles.foldl (fun seen handle => if handle ∈ seen then seen else seen ++ [handle]) []

/-- The context of a rule for an event of a card, if the rule's requirements hold. -/
def gather {σ : Type} (toss : Float → StateM σ Bool) (rule : Rule) (forest : Forest)
    (raised : Raised) : StateM σ (Option RuleContext) := do
  let container := forest.containerOf raised.source rule.containerDistance
  let selection : Selection := ⟨raised.source, container, [], rule.maxDepth⟩
  let gathered ← gatherMatched toss forest selection rule.requirements
  pure <| gathered.map fun matched =>
    { rule := rule.name
      event := raised.event
      source := raised.source
      container
      matched := if rule.policy.distinctMatched then distinct matched else matched
      maxDepth := rule.maxDepth }

end Rule

end CardRules
