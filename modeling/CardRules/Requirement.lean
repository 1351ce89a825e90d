import CardRules.Error
import CardRules.Selector

/-!
Requirements: what must hold before a rule may run. A requirement that holds may hand cards over to
the rule; they become the matched cards that later requirements and the effects can select.

Chances are drawn from a source that is a parameter here, so that nothing about a requirement rests
on how the numbers are made.
-/

namespace CardRules

/-- How a value is compared with a bound. -/
inductive Comparison where
  | lt
  | le
  | eq
  | ne
  | ge
  | gt
deriving DecidableEq

namespace Comparison

/-- Every comparison. -/
def all : List Comparison := [.lt, .le, .eq, .ne, .ge, .gt]

/-- The name of a comparison. -/
def name : Comparison → String
  | .lt => "lt"
  | .le => "le"
  | .eq => "eq"
  | .ne => "ne"
  | .ge => "ge"
  | .gt => "gt"

/-- The larger of two numbers; one that is not a number gives way to the other. -/
def larger (x y : Float) : Float :=
  if x.isNaN then y else if y.isNaN then x else if x < y then y else x

/-- The distance between one and the next larger number. -/
def epsilon : Float := Float.ofBits 0x3CB0000000000000

/-- Equality up to the rounding that numbers of this magnitude suffer. -/
def nearlyEqual (x y : Float) : Bool :=
  (x - y).abs ≤ epsilon * larger (larger x.abs y.abs) 1

/-- Whether two numbers stand in the relation. Equality allows for rounding. -/
def holds (comparison : Comparison) (x y : Float) : Bool :=
  match comparison with
  | .lt => x < y
  | .le => x ≤ y
  | .eq => nearlyEqual x y
  | .ne => !nearlyEqual x y
  | .ge => y ≤ x
  | .gt => y < x

end Comparison

/-- What must hold before a rule may run. -/
inductive Requirement where
  /-- The number of selected cards is within bounds; the cards are handed over if `collect` says
  so. -/
  | select (selector : Selector) (min : Nat) (max : Option Nat) (collect : Bool)
  /-- Some selected card has a property whose value stands in a relation to a bound; the cards
  that have are handed over. -/
  | property (selector : Selector) (name : String) (comparison : Comparison) (bound : Float)
  /-- A chance comes up. -/
  | chance (probability : Float)
  /-- Another requirement fails. -/
  | not (requirement : Requirement)
  /-- A condition of the user's own on the forest and the selection holds. -/
  | predicate (holds : Forest → Selection → Bool)

namespace Requirement

/-- At least one card is selected. -/
def has (selector : Selector) : Requirement := .select selector 1 none true

/-- The number of selected cards is within bounds. -/
def count (selector : Selector) (min : Nat) (max : Option Nat) : Requirement :=
  .select selector min max true

/-- No card is selected. -/
def absent (selector : Selector) : Requirement := .select selector 0 (some 0) false

/-- A probability that is too small is taken as zero, and one that is too large as one. -/
def clamp (probability : Float) : Float :=
  if probability < 0 then 0 else if 1 < probability then 1 else probability

/-- Whether a number of cards is within bounds. -/
def withinBounds (count min : Nat) (max : Option Nat) : Bool :=
  min ≤ count && max.all (count ≤ ·)

/-- Whether the first property of a name of a card stands in a relation to a bound. -/
def propertyHolds (forest : Forest) (name : String) (comparison : Comparison) (bound : Float)
    (handle : Handle) : Bool :=
  ((forest.get? handle).bind (·.property? name)).any fun property =>
    comparison.holds property.value bound

/-- Whether a requirement holds, and the cards it hands over if it does. `toss` says whether an
event of a probability happens. -/
def evaluate {σ : Type} (toss : Float → StateM σ Bool) (forest : Forest) (selection : Selection) :
    Requirement → StateM σ (Option (List Handle))
  | .select selector min max collect =>
    let selected := selector.select forest selection
    pure <|
      if withinBounds selected.length min max then some (if collect then selected else []) else none
  | .property selector name comparison bound =>
    let passing :=
      (selector.select forest selection).filter (propertyHolds forest name comparison bound)
    pure (if passing.isEmpty then none else some passing)
  | .chance probability => do
    let happens ← toss (clamp probability)
    pure (if happens then some [] else none)
  | .not requirement => do
    let found ← requirement.evaluate toss forest selection
    pure (if found.isNone then some [] else none)
  | .predicate holds => pure (if holds forest selection then some [] else none)

/-- The fault of a requirement, looked for under any number of negations. -/
def fault? : Requirement → Option RuleFault
  | .select _ min (some max) _ => if max < min then some (.emptyBounds min max) else none
  -- What is not a number fails both comparisons.
  | .chance probability =>
    if 0 ≤ probability && probability ≤ 1 then none else some (.chanceOutsideUnit probability)
  | .not requirement => requirement.fault?
  | _ => none

end Requirement

end CardRules
