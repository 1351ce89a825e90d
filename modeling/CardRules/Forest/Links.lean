import CardRules.Error
import CardRules.Forest.Walk

/-!
The three changes of links: to attach a card, to remove a child from its owner, and to detach a
card from whatever owns it. Each keeps the owner of a card and the children of that owner in
agreement, and raises one event on the card that moved.
-/

namespace CardRules.Forest

/-- Attaches a card without an owner at the end of the children of another. The cards must be
known and distinct, and the new child may not be an ancestor of its parent. -/
def attach (forest : Forest) (parent child : Handle) (intrinsic : Bool) : Except Error Forest :=
  if !forest.contains parent then .error (.unknownCard parent)
  else
    match forest.get? child with
    | none => .error (.unknownCard child)
    | some card =>
      if child = parent then .error (.selfOwnership child)
      else
        match card.owner with
        | some owner => .error (.alreadyOwned child owner)
        | none =>
          if child ∈ forest.ancestors parent then .error (.ownershipCycle child parent)
          else
            -- Both sides of the link are written: the parent's list, then the child's owner.
            let linked := forest.modify parent fun card =>
              { card with
                children := card.children ++ [child]
                intrinsic := if intrinsic then card.intrinsic.insert child else card.intrinsic }
            let owned := linked.modify child fun card => { card with owner := some parent }
            .ok (owned.emit child (.added parent))

/-- Removes a child from its parent. There is nothing to remove if the card is not a child, and an
intrinsic child is removed by force only. -/
def remove? (forest : Forest) (parent child : Handle) (force : Bool) : Option Forest :=
  match forest.get? parent with
  | none => none
  | some card =>
    if child ∉ card.children then none
    else if card.intrinsic.contains child && !force then none
    else
      -- The same two sides as above, now without the link.
      let unlinked := forest.modify parent fun card =>
        { card with
          children := card.children.erase child
          intrinsic := card.intrinsic.erase child }
      let released := unlinked.modify child fun card => { card with owner := none }
      some (released.emit child (.removed parent))

/-- Removes a card from its owner, if it has one. -/
def detach? (forest : Forest) (child : Handle) (force : Bool) : Option Forest :=
  match forest.owner? child with
  | some owner => forest.remove? owner child force
  | none => none

end CardRules.Forest
