import CardRules.Proofs.Forest.Agreement
import CardRules.Proofs.Grafting

/-!
To attach a card and to remove it again undo each other. A card that was attached and is removed
leaves no trace in the links; a card that was removed and is attached again comes last among the
children, and is otherwise where it was. What lies below it goes with it untouched.
-/

namespace CardRules

/-! ## One card -/

section

variable {card : Card} {child : Handle}

/-- The card with a child moved behind the others. -/
def Card.withLast (card : Card) (child : Handle) : Card :=
  { card with children := card.children.erase child ++ [child] }

/-- A new child that is taken away leaves neither a child nor a mark behind. -/
theorem Card.withoutChild_withChild (h : card.ListsIntrinsic) (hnew : child ∉ card.children)
    (intrinsic : Bool) : (card.withChild child intrinsic).withoutChild child = card := by
  have hunmarked := h.contains_eq_false hnew
  have hchildren : (card.children ++ [child]).erase child = card.children := by
    rw [List.erase_append_right _ hnew, List.erase_cons_head, List.append_nil]
  have hintrinsic : (if intrinsic then card.intrinsic.insert child else card.intrinsic).erase
      child = card.intrinsic := by
    cases intrinsic with
    | false => exact SortedSet.erase_of_not_contains hunmarked
    | true => exact SortedSet.erase_insert hunmarked
  unfold withChild withoutChild
  simp only [hchildren, hintrinsic]

/-- A child that is taken away and given back with the same mark has moved behind the others. -/
theorem Card.withChild_withoutChild {intrinsic : Bool}
    (h : card.intrinsic.contains child = intrinsic) :
    (card.withoutChild child).withChild child intrinsic = card.withLast child := by
  have hintrinsic : (if intrinsic then (card.intrinsic.erase child).insert child
      else card.intrinsic.erase child) = card.intrinsic := by
    cases intrinsic with
    | false => exact SortedSet.erase_of_not_contains h
    | true => exact SortedSet.insert_erase h
  unfold withChild withoutChild withLast
  simp only [hintrinsic]

end

namespace Forest

variable {forest after : Forest} {parent child : Handle} {intrinsic force : Bool}

/-! ## What lies below -/

/-- The same lies below a card in two forests: the walks down from it find the same, and what they
find are the same cards. -/
structure SameBelow (forest after : Forest) (root : Handle) : Prop where
  walk : ∀ limit, after.descendants root limit = forest.descendants root limit
  cards : ∀ low ∈ forest.descendants root none, after.get? low = forest.get? low

theorem SameBelow.trans {last : Forest} {root : Handle} (hfirst : SameBelow forest after root)
    (hsecond : SameBelow after last root) : SameBelow forest last root := by
  refine ⟨fun limit => (hsecond.walk limit).trans (hfirst.walk limit), fun low hlow => ?_⟩
  rw [← hfirst.cards low hlow]
  apply hsecond.cards
  rwa [hfirst.walk]

/-- When a link to a card is written, nothing changes below that card. -/
theorem Relinked.sameBelow {relist : Card → Card} {owner : Option Handle} {event : Event}
    (h : Relinked forest parent child relist owner event after)
    (hself : ¬ forest.Descends child child) (hparent : ¬ forest.Descends parent child) :
    SameBelow forest after child := by
  have hagree : Agree {low | forest.Descends low child} forest after :=
    ⟨h.size, fun low hlow => h.others low (fun heq => hparent (heq ▸ hlow))
      fun heq => hself (heq ▸ hlow)⟩
  have hchildren : after.children child = forest.children child := by
    unfold children
    rw [h.owned, Option.map_map]
    rfl
  refine ⟨hagree.descendants_eq_of_children (holdsChildren_descends forest child) hchildren
    fun low hlow => .single hlow, fun low hlow => ?_⟩
  exact hagree.cards low (descends_of_mem_descendants hlow)

section

variable (hsound : forest.Sound)

include hsound

theorem not_descends_self (handle : Handle) : ¬ forest.Descends handle handle := by
  rw [descends_iff_transGen hsound]
  exact hsound.acyclic handle

theorem not_descends_of_owner? {owner : Handle} (h : forest.owner? child = some owner) :
    ¬ forest.Descends owner child := by
  rw [descends_iff_transGen hsound]
  exact fun hpath => hsound.acyclic child (.head h hpath)

theorem sameBelow_attach (h : forest.attach parent child intrinsic = .ok after) :
    SameBelow forest after child := by
  obtain ⟨-, -, -, hancestor, -⟩ := attach_eq_ok h
  refine (relinked_attach h).sameBelow (not_descends_self hsound child) ?_
  rw [descends_iff_transGen hsound, ← mem_ancestors_iff hsound]
  exact hancestor

theorem sameBelow_remove? (h : forest.remove? parent child force = some after) :
    SameBelow forest after child :=
  (relinked_remove? h hsound).sameBelow (not_descends_self hsound child)
    (not_descends_of_owner? hsound (owner?_of_remove? h hsound))

end

/-! ## Back and forth -/

/-- The events that a card raises, if anyone listens to it. -/
def heard (forest : Forest) (child : Handle) (events : List Event) : List Raised :=
  if forest.listened child then events.map (Raised.mk child) else []

theorem heard_append (forest : Forest) (child : Handle) (first second : Event) :
    forest.heard child [first] ++ forest.heard child [second] =
      forest.heard child [first, second] := by
  unfold heard
  split
  · rfl
  · rfl

theorem Relinked.outbox_eq {relist : Card → Card} {owner : Option Handle} {event : Event}
    (h : Relinked forest parent child relist owner event after) :
    after.outbox = forest.outbox ++ forest.heard child [event] := h.outbox

theorem heard_eq (h : SameView Card.listeners forest after) (child : Handle)
    (events : List Event) : after.heard child events = forest.heard child events := by
  unfold heard
  rw [listened_eq h]

section

variable (hsound : forest.Sound)

include hsound

/-- What was attached can be removed by force, and all cards are as they were. -/
theorem remove?_of_attach (h : forest.attach parent child intrinsic = .ok after) :
    after.remove? parent child true =
      some { forest with
        outbox := forest.outbox ++ forest.heard child [.added parent, .removed parent] } := by
  obtain ⟨-, ⟨card, hcard, howner⟩, hne, -, -⟩ := attach_eq_ok h
  have hsound' := hsound.attach h
  have howned : after.owner? child = some parent := by rw [owner?_attach h, if_pos rfl]
  obtain ⟨restored, hrestored⟩ := (exists_remove?_iff hsound').2 ⟨howned, .inl rfl⟩
  have hview : SameView Card.listeners forest after :=
    sameView_of_attach h (fun _ => rfl) fun _ => rfl
  rw [hrestored]
  refine congrArg some (ext_get? (fun handle => ?_) ?_)
  · show restored.get? handle = forest.get? handle
    rw [get?_remove? hrestored hsound', get?_attach h, get?_attach h, get?_attach h, if_pos rfl,
      if_neg hne.symm, if_pos rfl]
    by_cases hchild : handle = child
    · -- The child had no owner before.
      rw [if_pos hchild, hchild, hcard]
      simp [Card.withOwner, ← howner]
    · by_cases hparent : handle = parent
      · rw [if_neg hchild, if_pos hparent, hparent]
        cases hlisting : forest.get? parent with
        | none => rfl
        | some listing =>
          have hnew : child ∉ listing.children := by
            rw [← children_of_get? hlisting]
            exact not_mem_children_of_attach h hsound parent
          simp [Card.withoutChild_withChild (hsound.listsIntrinsic hlisting) hnew]
      · simp only [if_neg hchild, if_neg hparent]
  · rw [(relinked_remove? hrestored hsound').outbox_eq, (relinked_attach h).outbox_eq,
      heard_eq hview, List.append_assoc, heard_append]

/-- What was removed can be attached again, and has moved behind the other children. -/
theorem attach_of_remove? (h : forest.remove? parent child force = some after)
    (hmarks : intrinsic = true ↔ forest.Marks parent child) :
    after.attach parent child intrinsic =
      .ok { forest.modify parent (·.withLast child) with
        outbox := forest.outbox ++ forest.heard child [.removed parent, .added parent] } := by
  have howner := owner?_of_remove? h hsound
  have hne := ne_of_remove? h hsound
  have hsound' := hsound.remove? h
  have hcontains := contains_eq_of_size_eq (size_remove? h)
  have hfree : after.owner? child = none := by rw [owner?_remove? h hsound, if_pos rfl]
  -- No way leads down from the child to its parent, now as before.
  have hcycle : parent ∉ after.descendants child none := by
    rw [(sameBelow_remove? hsound h).walk, ← descends_iff hsound]
    exact not_descends_of_owner? hsound howner
  have hobstacles : after.obstacles parent child = [] := by
    rw [obstacles_eq_nil_iff, hcontains, hcontains]
    exact ⟨hsound.contains_owner howner, contains_of_owner? howner, hfree, hne, hcycle⟩
  obtain ⟨again, hagain⟩ : ∃ again, after.attach parent child intrinsic = .ok again := by
    rw [attach_eq hsound', hobstacles]
    exact ⟨_, rfl⟩
  have hview : SameView Card.listeners forest after :=
    sameView_of_remove? h (fun _ => rfl) fun _ => rfl
  rw [hagain]
  refine congrArg Except.ok (ext_get? (fun handle => ?_) ?_)
  · show again.get? handle = (forest.modify parent (·.withLast child)).get? handle
    rw [get?_attach hagain, get?_remove? h hsound, get?_remove? h hsound, get?_remove? h hsound,
      get?_modify, if_pos rfl, if_neg hne.symm, if_pos rfl]
    by_cases hchild : handle = child
    · rw [if_pos hchild, if_neg (hchild ▸ hne), hchild]
      obtain ⟨card, hcard, howned⟩ := Option.bind_eq_some_iff.1 howner
      simp [hcard, Card.withOwner, ← howned]
    · by_cases hparent : handle = parent
      · rw [if_neg hchild, if_pos hparent, if_pos hparent, hparent]
        obtain ⟨listing, hlisting, -⟩ := remove?_eq_some h
        have hmark : listing.intrinsic.contains child = intrinsic := by
          rw [Bool.eq_iff_iff, hmarks]
          constructor
          · exact fun hmem => ⟨listing, hlisting, hmem⟩
          · rintro ⟨found, hfound, hmem⟩
            rwa [Option.some.inj (hfound.symm.trans hlisting)] at hmem
        simp [hlisting, Card.withChild_withoutChild hmark]
      · simp only [if_neg hchild, if_neg hparent]
  · rw [(relinked_attach hagain).outbox_eq, (relinked_remove? h hsound).outbox_eq,
      heard_eq hview, List.append_assoc, heard_append]

end

/-- Attaching and removing undo each other, whatever lies below the card that is moved. A card that
was just attached comes off by force, and then all cards are as they were before. A card that was
just removed, by force or not, can be attached again with the mark that it had; then it has moved
behind the other children of its parent, and all else is as it was. The listeners of the card hear
of both, and what lies below it is the same all the time. -/
theorem attaching_and_removing_undo_each_other (h : forest.Planted) (parent child : Handle) :
    (∀ intrinsic linked, forest.attach parent child intrinsic = .ok linked →
      SameBelow forest linked child ∧
      linked.remove? parent child true =
        some { forest with
          outbox := forest.outbox ++ forest.heard child [.added parent, .removed parent] }) ∧
    ∀ force released, forest.remove? parent child force = some released →
      SameBelow forest released child ∧
      ∀ intrinsic, (intrinsic = true ↔ forest.Marks parent child) →
        ∃ again, released.attach parent child intrinsic = .ok again ∧
          again = { forest.modify parent (·.withLast child) with
            outbox := forest.outbox ++ forest.heard child [.removed parent, .added parent] } ∧
          SameBelow forest again child := by
  have hsound := h.sound
  refine ⟨fun intrinsic linked hattach => ?_, fun force released hremove => ?_⟩
  · exact ⟨sameBelow_attach hsound hattach, remove?_of_attach hsound hattach⟩
  · have hbelow := sameBelow_remove? hsound hremove
    refine ⟨hbelow, fun intrinsic hmarks => ?_⟩
    have hagain := attach_of_remove? hsound hremove hmarks
    exact ⟨_, hagain, rfl, hbelow.trans (sameBelow_attach (hsound.remove? hremove) hagain)⟩

/-- The left branch is built into the trunk, and someone listens to it. It comes off by force, and
when it is built in again it stands behind the right one. In between it can be tied to the twig, and
comes off without a trace. -/
theorem branches_are_grafted_back :
    ∃ forest released again linked : Forest, forest.Planted ∧
      forest.children ⟨0⟩ = [⟨1⟩, ⟨2⟩] ∧ forest.remove? ⟨0⟩ ⟨1⟩ true = some released ∧
      released.attach ⟨0⟩ ⟨1⟩ true = .ok again ∧ again.children ⟨0⟩ = [⟨2⟩, ⟨1⟩] ∧
      again.outbox = [⟨⟨1⟩, .removed ⟨0⟩⟩, ⟨⟨1⟩, .added ⟨0⟩⟩] ∧ SameBelow forest again ⟨1⟩ ∧
      released.attach ⟨3⟩ ⟨1⟩ false = .ok linked ∧
      linked.remove? ⟨3⟩ ⟨1⟩ true =
        some { released with
          outbox := released.outbox ++ [⟨⟨1⟩, .added ⟨3⟩⟩, ⟨⟨1⟩, .removed ⟨3⟩⟩] } := by
  have hfacts : (orchard.map (·.modify ⟨1⟩ (·.subscribe .scheduler))).bind (fun forest =>
      (forest.remove? ⟨0⟩ ⟨1⟩ true).bind fun released =>
        (released.attach ⟨3⟩ ⟨1⟩ false).toOption.map fun _ =>
          (forest.children ⟨0⟩, (forest.get? ⟨0⟩).map (·.intrinsic.contains ⟨1⟩),
            forest.outbox.isEmpty, forest.listened ⟨1⟩, released.listened ⟨1⟩)) =
      some ([⟨1⟩, ⟨2⟩], some true, true, true, true) := by
    decide +kernel
  obtain ⟨forest, hforest, hrest⟩ := Option.bind_eq_some_iff.1 hfacts
  obtain ⟨released, hreleased, hrest⟩ := Option.bind_eq_some_iff.1 hrest
  obtain ⟨linked, hlinked, hvalues⟩ := Option.map_eq_some_iff.1 hrest
  simp only [Prod.mk.injEq] at hvalues
  obtain ⟨hchildren, hmarked, hempty, hlistened, hlistened'⟩ := hvalues
  obtain ⟨trunk, htrunk, hmem⟩ := Option.map_eq_some_iff.1 hmarked
  have hplanted : forest.Planted := by
    obtain ⟨start, hstart, rfl⟩ := Option.map_eq_some_iff.1 hforest
    exact (planted_of_orchard hstart).edit fun _ => rfl
  obtain ⟨-, hback⟩ := attaching_and_removing_undo_each_other hplanted ⟨0⟩ ⟨1⟩
  obtain ⟨-, hagain⟩ := hback true released hreleased
  obtain ⟨again, hattach, heq, hbelow⟩ := hagain true (iff_of_true rfl ⟨trunk, htrunk, hmem⟩)
  obtain ⟨hforth, -⟩ :=
    attaching_and_removing_undo_each_other (hplanted.remove hreleased) ⟨3⟩ ⟨1⟩
  obtain ⟨-, hremoved⟩ := hforth false linked (attach_of_toOption hlinked)
  refine ⟨forest, released, again, linked, hplanted, hchildren, hreleased, hattach, ?_, ?_, hbelow,
    attach_of_toOption hlinked, ?_⟩
  · have hlast : again.get? ⟨0⟩ = some (trunk.withLast ⟨1⟩) := by
      rw [heq]
      exact (get?_modify forest ⟨0⟩ _ ⟨0⟩).trans (by rw [if_pos rfl, htrunk]; rfl)
    rw [children_of_get? htrunk] at hchildren
    rw [children_of_get? hlast, Card.withLast, hchildren]
    rfl
  · rw [heq, List.isEmpty_iff.1 hempty]
    simp [heard, hlistened]
  · rw [hremoved]
    simp [heard, hlistened']

end Forest

end CardRules
