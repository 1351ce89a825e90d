import CardRules.Forest.Basic

/-!
Walks along the links of a forest: up through the owners, and down through the children in
pre-order.

Where owners and children agree and nothing lies below itself, a walk meets no card twice; so the
number of cards bounds its length, and that number is the fuel each walk is given.
-/

namespace CardRules.Forest

/-- The owners met on the way up from a place, nearest first, in at most so many steps. -/
def ownersFrom (forest : Forest) : Nat → Option Handle → List Handle
  | 0, _ => []
  | _ + 1, none => []
  | steps + 1, some handle => handle :: ownersFrom forest steps (forest.owner? handle)

/-- The owner of a card, the owner's owner, and so on. -/
def ancestors (forest : Forest) (handle : Handle) : List Handle :=
  forest.ownersFrom forest.size (forest.owner? handle)

/-- The last owner on the way up, or the card itself if it has none. -/
def rootOf (forest : Forest) (handle : Handle) : Handle :=
  (forest.ancestors handle).getLastD handle

/-- The card reached by so many steps up, or the root if that comes first. -/
def climb (forest : Forest) : Nat → Handle → Handle
  | 0, handle => handle
  | steps + 1, handle =>
    match forest.owner? handle with
    | some owner => climb forest steps owner
    | none => handle

/-- The container of a card at a distance: so many steps up, and the root if the distance is
negative. -/
def containerOf (forest : Forest) (source : Handle) (distance : Int) : Handle :=
  if distance < 0 then forest.rootOf source else forest.climb distance.toNat source

/-- Pre-order with a stack of cards still to visit, each with its depth below the start. A card
whose depth has reached the limit is listed, but its children are not. -/
def visit (forest : Forest) (limit : Option Nat) : Nat → List (Handle × Nat) → List Handle
  | 0, _ => []
  | _ + 1, [] => []
  | steps + 1, (handle, depth) :: stack =>
    let below :=
      if limit.all (depth < ·) then (forest.children handle).map (·, depth + 1) else []
    handle :: visit forest limit steps (below ++ stack)

/-- The cards below a card in pre-order, down to a depth if one is given. -/
def descendants (forest : Forest) (root : Handle) (limit : Option Nat) : List Handle :=
  if limit = some 0 then []
  else forest.visit limit forest.size ((forest.children root).map (·, 1))

end CardRules.Forest
