import CardRules.Proofs.Expansion
import CardRules.Proofs.Forest.Lineage
import CardRules.Proofs.Outcomes
import CardRules.Proofs.Skeleton

/-!
When links may change. A card is attached unless something stands in the way, and what is reported
is the first such thing; a card is removed from the card that owns it, and by force only if it is
built in. These conditions are about the forest as it looks from outside: who owns whom, and what
lies below what. Nothing that is refused leaves a trace, and what is done concerns the two cards of
the link only.
-/

namespace CardRules

open EngineM

namespace Forest

variable {forest after : Forest} {parent child : Handle} {intrinsic force : Bool}

/-! ## Attaching -/

/-- What stands in the way of attaching a card to another one, in the order in which it is reported:
one of the two is unknown, they are the same, the child has an owner, or the parent lies below
it. -/
def obstacles (forest : Forest) (parent child : Handle) : List Error :=
  (if forest.contains parent then [] else [.unknownCard parent]) ++
    ((if forest.contains child then [] else [.unknownCard child]) ++
      ((if child = parent then [.selfOwnership child] else []) ++
        ((forest.owner? child).toList.map (Error.alreadyOwned child) ++
          if parent ∈ forest.descendants child none then [.ownershipCycle child parent] else [])))

theorem obstacles_eq_nil_iff :
    forest.obstacles parent child = [] ↔
      forest.contains parent = true ∧ forest.contains child = true ∧
        forest.owner? child = none ∧ child ≠ parent ∧ parent ∉ forest.descendants child none := by
  simp only [obstacles, List.append_eq_nil_iff, ite_eq_left_iff, ite_eq_right_iff,
    List.map_eq_nil_iff, Option.toList_eq_nil_iff, reduceCtorEq, imp_false, not_not]
  tauto

/-- To attach a card is to look for obstacles, and to link the two cards if there is none. -/
theorem attach_eq (hsound : forest.Sound) :
    forest.attach parent child intrinsic =
      match forest.obstacles parent child with
      | error :: _ => .error error
      | [] => .ok (((forest.modify parent (·.withChild child intrinsic)).modify child
          (·.withOwner (some parent))).emit child (.added parent)) := by
  have hbelow : parent ∈ forest.descendants child none ↔ child ∈ forest.ancestors parent :=
    mem_descendants_none_iff hsound
  -- The checks are made one after the other, so each case is about the first that fails.
  unfold attach obstacles
  by_cases hparent : forest.contains parent = true
  · cases hcard : forest.get? child with
    | none =>
      have hchild : ¬ forest.contains child = true := by simp [contains_iff, hcard]
      simp [hparent, hchild]
    | some card =>
      have hchild : forest.contains child = true := contains_iff.2 ⟨card, hcard⟩
      have howner : forest.owner? child = card.owner := owner?_of_get? hcard
      by_cases hsame : child = parent
      · simp [hparent, hsame]
      · cases hcase : card.owner with
        | some owner => simp [hparent, hchild, hsame, howner, hcase]
        | none =>
          by_cases hcycle : child ∈ forest.ancestors parent
          · simp [hparent, hchild, hsame, howner, hcase, hbelow, hcycle]
          · simp only [hparent, hchild, hsame, howner, hcase, hbelow, hcycle]
            rfl
  · simp [hparent]

/-! ## Removing -/

/-- A card can be removed from the card that owns it, if it is not built in or force is used. -/
theorem exists_remove?_iff (hsound : forest.Sound) :
    (∃ after, forest.remove? parent child force = some after) ↔
      forest.owner? child = some parent ∧ (force = true ∨ ¬ forest.Marks parent child) := by
  constructor
  · rintro ⟨after, hremoved⟩
    refine ⟨owner?_of_remove? hremoved hsound, ?_⟩
    obtain ⟨card, hcard, -, hforce, -⟩ := remove?_eq_some hremoved
    by_cases hmarks : forest.Marks parent child
    · obtain ⟨found, hfound, hmem⟩ := hmarks
      obtain rfl : card = found := Option.some.inj (hcard.symm.trans hfound)
      exact .inl (hforce hmem)
    · exact .inr hmarks
  · rintro ⟨howner, hallowed⟩
    obtain ⟨card, hcard⟩ := contains_iff.1 (hsound.contains_owner howner)
    have hchild : child ∈ card.children := by
      rw [← children_of_get? hcard]
      exact hsound.mem_children_iff.2 howner
    have hspared : ¬ (card.intrinsic.contains child && !force) = true := by
      rcases hallowed with rfl | hmarks
      · simp
      · have hmem : ¬ card.intrinsic.contains child = true := fun hmem => hmarks ⟨card, hcard, hmem⟩
        simp [hmem]
    unfold remove?
    simp only [hcard]
    rw [if_neg (not_not.2 hchild), if_neg hspared]
    exact ⟨_, rfl⟩

/-! ## What is done -/

/-- The two sides of a link were written: the parent has other children, the child has another
owner, and the child's listeners, if there are any, are to be told. Nothing else is different. -/
structure Relinked (forest : Forest) (parent child : Handle) (relist : Card → Card)
    (owner : Option Handle) (event : Event) (after : Forest) : Prop where
  size : after.size = forest.size
  listed : after.get? parent = (forest.get? parent).map relist
  owned : after.get? child = (forest.get? child).map (·.withOwner owner)
  others : ∀ handle, handle ≠ parent → handle ≠ child → after.get? handle = forest.get? handle
  outbox : after.outbox =
    forest.outbox ++ if forest.listened child then [⟨child, event⟩] else []

theorem relinked_attach (h : forest.attach parent child intrinsic = .ok after) :
    Relinked forest parent child (·.withChild child intrinsic) (some parent) (.added parent)
      after where
  size := size_attach h
  listed := by
    obtain ⟨-, -, hne, -⟩ := attach_eq_ok h
    rw [get?_attach h, if_neg (Ne.symm hne), if_pos rfl]
  owned := by rw [get?_attach h, if_pos rfl]
  others handle hparent hchild := by rw [get?_attach h, if_neg hchild, if_neg hparent]
  outbox := by rw [outbox_attach h, List.filter_cons, List.filter_nil]

theorem relinked_remove? (h : forest.remove? parent child force = some after)
    (hsound : forest.Sound) :
    Relinked forest parent child (·.withoutChild child) none (.removed parent) after where
  size := size_remove? h
  listed := by
    rw [get?_remove? h hsound, if_neg (Ne.symm (ne_of_remove? h hsound)), if_pos rfl]
  owned := by rw [get?_remove? h hsound, if_pos rfl]
  others handle hparent hchild := by rw [get?_remove? h hsound, if_neg hchild, if_neg hparent]
  outbox := by rw [outbox_remove? h, List.filter_cons, List.filter_nil]

end Forest

namespace Engine

variable {engine after : Engine} {card : Card}

/-! ## The forests of engines -/

theorem planted_register (h : engine.forest.Planted) (handle : Handle) :
    (engine.register handle).forest.Planted := by
  rcases register_cases engine handle with hsame | ⟨card, hnew, hcard⟩
  · rw [hsame]
    exact h
  · rw [register_of_get? hnew hcard]
    exact h.edit fun _ => rfl

theorem planted_addCard (h : engine.forest.Planted) (hfresh : card.IsFresh) :
    (engine.addCard card).forest.Planted := by
  have hunlinked : card.links = (none, [], ∅) := by
    unfold Card.links
    rw [hfresh.owner, hfresh.children, hfresh.intrinsic]
  have hinserted : { engine with forest := engine.forest.insert card }.forest.Planted :=
    h.insert hunlinked
  exact planted_register hinserted engine.forest.next

theorem planted_deliver {forest : Forest} (h : forest.Planted) :
    { engine with forest }.deliver.forest.Planted := by
  rw [forest_deliver]
  exact h.emptied

theorem planted_foldl_emit {forest : Forest} (h : forest.Planted) (handles : List Handle)
    (event : Event) : (handles.foldl (·.emit · event) forest).Planted := by
  induction handles generalizing forest with
  | nil => exact h
  | cons handle rest ih => exact ih (h.emit handle event)

theorem Change.planted (hchange : Change Operation.BringsFresh engine after)
    (hlinked : engine.SoundlyLinked) (h : engine.forest.Planted) : after.forest.Planted := by
  cases hchange with
  | addCard asked => exact planted_addCard h asked
  | makeCard known made => exact planted_addCard h (hlinked.fresh _ known _ _ made)
  | setFactory => exact h
  | register => exact planted_register h _
  | unregister =>
    unfold Engine.unregister
    split
    · exact h.edit fun _ => rfl
    · exact h
  | registerRule _ accepted =>
    obtain ⟨-, -, rfl⟩ := registerRule_eq_ok accepted
    exact h
  | subscribe => exact h.edit fun _ => rfl
  | unsubscribe =>
    unfold Engine.unsubscribe
    split
    · exact h.edit fun _ => rfl
    · exact h
  | attach attached => exact planted_deliver (h.attach attached)
  | remove _ removed => exact planted_deliver (h.remove removed)
  | raise => exact planted_deliver (h.emit _ _)
  | tickAll => exact planted_deliver (planted_foldl_emit h _ _)
  | deliver => exact planted_deliver h
  | edit edits => exact h.edit (links_of_isEdit edits)
  | keepError => exact h
  | note => exact h

/-- The forest of an engine comes about by inserting, attaching, removing and detaching, also where
that is done by rules and callbacks. -/
theorem Arises.planted (h : engine.Arises) : engine.forest.Planted := by
  -- A factory makes fresh cards in the engines that are soundly linked, so both are kept together.
  have hsame : ∀ {here later}, SameCards here later →
      here.SoundlyLinked ∧ here.forest.Planted → later.SoundlyLinked ∧ later.forest.Planted :=
    fun hsame h => ⟨h.1.ofSame hsame, hsame.forest ▸ h.2⟩
  have hchange : ∀ {here later}, Change Operation.BringsFresh here later →
      here.SoundlyLinked ∧ here.forest.Planted → later.SoundlyLinked ∧ later.forest.Planted :=
    fun hchange h => ⟨h.1.change hchange, hchange.planted h.1 h.2⟩
  have hstays : Stays Operation.BringsFresh fun here =>
      here.SoundlyLinked ∧ here.forest.Planted :=
    fun hstep => hstep.keepsCards hsame hchange
  exact (h.keeps hstays fun config _ hfresh => ⟨soundlyLinked_new config hfresh, .empty⟩).2

/-! ## Detaching inside effects -/

/-- A card that is not built in comes off the card that owns it, and the event is delivered. -/
theorem exists_detach_loose (h : engine.Arises) {owner child : Handle}
    (howner : engine.forest.owner? child = some owner)
    (hloose : ¬ engine.forest.Marks owner child) :
    ∃ forest delivered, engine.forest.remove? owner child false = some forest ∧
      (detach settleInside child false).start engine = some (.ok true, delivered) ∧
      delivered.Arises ∧ delivered.forest = forest.emptied ∧
      Delivers engine [⟨child, .removed owner⟩] delivered := by
  have hsound := h.listed.linked.sound
  obtain ⟨forest, hremove⟩ : ∃ forest, engine.forest.remove? owner child false = some forest :=
    (Forest.exists_remove?_iff hsound).2 ⟨howner, .inr hloose⟩
  have hdetach : engine.forest.detach? child false = some forest := by
    simp [Forest.detach?, howner, hremove]
  obtain ⟨delivered, harises, hdelivers, hinside, -⟩ := h.settles_remove? hremove
  refine ⟨forest, delivered, hremove, ?_, harises, ?_, hdelivers⟩
  · rw [start_detach, hdetach]
    show ((fun _ => true) <$> settleInside).start _ = _
    rw [start_map, hinside]
    rfl
  · cases hinside
    exact forest_deliver _

end Engine

namespace Forest

variable {forest : Forest}

/-! ## The conditions and their consequences -/

/-- In a forest that came about by inserting and linking, a card is attached exactly if both cards
are known, the child has no owner, and the parent is neither the child nor below it; otherwise the
first obstacle is reported. A card is removed from a card exactly if that one owns it, and it is not
built in or force is used; detaching is removing from the owner. What is done concerns the link and
the child's listeners only, and an engine where it is refused goes on as it was. -/
theorem links_change_exactly_when_they_may (h : forest.Planted) (parent child : Handle) :
    (∀ intrinsic,
      ((∃ after, forest.attach parent child intrinsic = .ok after) ↔
        forest.contains parent = true ∧ forest.contains child = true ∧
          forest.owner? child = none ∧ child ≠ parent ∧
            parent ∉ forest.descendants child none) ∧
      (∀ error, forest.attach parent child intrinsic = .error error ↔
        (forest.obstacles parent child).head? = some error) ∧
      ∀ after, forest.attach parent child intrinsic = .ok after →
        Relinked forest parent child (·.withChild child intrinsic) (some parent) (.added parent)
          after) ∧
    (∀ force,
      ((∃ after, forest.remove? parent child force = some after) ↔
        forest.owner? child = some parent ∧ (force = true ∨ ¬ forest.Marks parent child)) ∧
      forest.detach? child force = (forest.owner? child).bind (forest.remove? · child force) ∧
      ∀ after, forest.remove? parent child force = some after →
        Relinked forest parent child (·.withoutChild child) none (.removed parent) after) ∧
    ∀ (engine : Engine) (settle : EngineM Unit), engine.forest = forest →
      (∀ intrinsic error, forest.attach parent child intrinsic = .error error →
        (Engine.attach settle parent child intrinsic).start engine =
          some (.error error, engine)) ∧
      (∀ force, forest.remove? parent child force = none →
        (Engine.removeChild settle parent child force).start engine =
          ((fun _ => false) <$> settle).start engine) ∧
      ∀ force, forest.detach? child force = none →
        (Engine.detach settle child force).start engine =
          ((fun _ => false) <$> settle).start engine := by
  have hsound := h.sound
  refine ⟨fun intrinsic => ⟨?_, fun error => ?_, fun after => relinked_attach⟩,
    fun force => ⟨exists_remove?_iff hsound, ?_, fun after hremoved =>
      relinked_remove? hremoved hsound⟩, ?_⟩
  · -- Whether a card is attached, and what is reported if not, is read off the list of obstacles.
    rw [attach_eq hsound, ← obstacles_eq_nil_iff]
    cases forest.obstacles parent child with
    | nil => simp
    | cons error rest => simp
  · rw [attach_eq hsound]
    cases forest.obstacles parent child with
    | nil => simp
    | cons first rest => simp
  · unfold detach?
    cases forest.owner? child with
    | none => rfl
    | some owner => rfl
  · rintro engine settle rfl
    refine ⟨fun intrinsic error hrefused => ?_, fun force hrefused => ?_,
      fun force hrefused => ?_⟩
    · rw [Engine.start_attach, hrefused]
    · rw [Engine.start_removeChild, hrefused]
    · rw [Engine.start_detach, hrefused]

end Forest

namespace Engine

/-- A flame was taken from its torch and built into the bench: it has an owner now, the bench cannot
go below it, and it comes off by force only. -/
theorem flames_come_off_by_force :
    ∃ engine : Engine, engine.Reachable ∧
      engine.forest.attach ⟨1⟩ ⟨2⟩ false = .error (.alreadyOwned ⟨2⟩ ⟨0⟩) ∧
      (attach settleInside ⟨2⟩ ⟨0⟩ true).start engine =
        some (.error (.ownershipCycle ⟨0⟩ ⟨2⟩), engine) ∧
      (removeChild settleInside ⟨0⟩ ⟨2⟩ false).start engine =
        ((fun _ => false) <$> settleInside).start engine ∧
      ∃ after, engine.forest.remove? ⟨0⟩ ⟨2⟩ true = some after ∧
        after.get? ⟨2⟩ = (engine.forest.get? ⟨2⟩).map (·.withOwner none) := by
  have hfacts : (run moving 1 lighting (new {} torches)).map (fun (result, engine) =>
      (result.isOk, (engine.forest.size, engine.forest.descendants ⟨0⟩ none),
        engine.forest.owner? ⟨0⟩, engine.forest.owner? ⟨2⟩,
        (engine.forest.get? ⟨0⟩).map (·.intrinsic.contains ⟨2⟩))) =
      some (true, (3, [⟨1⟩, ⟨2⟩]), none, some ⟨0⟩, some true) := by
    decide +kernel
  obtain ⟨⟨result, engine⟩, hrun, hvalues⟩ := Option.map_eq_some_iff.1 hfacts
  simp only [Prod.mk.injEq] at hvalues
  obtain ⟨hok, ⟨hsize, hbelow⟩, hroot, howner, hmarked⟩ := hvalues
  have hreachable : engine.Reachable :=
    reachable_of_isOk askOnly_moving asksOnly_lighting makesFresh_torches hrun hok
  have hmarks : engine.forest.Marks ⟨0⟩ ⟨2⟩ := by
    obtain ⟨card, hcard, hmem⟩ := Option.map_eq_some_iff.1 hmarked
    exact ⟨card, hcard, hmem⟩
  have hfirst : (engine.forest.obstacles ⟨1⟩ ⟨2⟩).head? = some (.alreadyOwned ⟨2⟩ ⟨0⟩) := by
    simp [Forest.obstacles, Forest.contains, hsize, howner]
  have hsecond : (engine.forest.obstacles ⟨2⟩ ⟨0⟩).head? = some (.ownershipCycle ⟨0⟩ ⟨2⟩) := by
    simp [Forest.obstacles, Forest.contains, hsize, hroot, hbelow]
  have hplanted := hreachable.arises.planted
  obtain ⟨htorch, -, -⟩ := Forest.links_change_exactly_when_they_may hplanted ⟨1⟩ ⟨2⟩
  obtain ⟨hbench, -, hcycle⟩ := Forest.links_change_exactly_when_they_may hplanted ⟨2⟩ ⟨0⟩
  obtain ⟨-, hflame, hbuiltIn⟩ := Forest.links_change_exactly_when_they_may hplanted ⟨0⟩ ⟨2⟩
  refine ⟨engine, hreachable, ((htorch false).2.1 _).2 hfirst, ?_, ?_, ?_⟩
  · exact (hcycle engine settleInside rfl).1 true _ (((hbench true).2.1 _).2 hsecond)
  · refine (hbuiltIn engine settleInside rfl).2.1 false ?_
    rw [Option.eq_none_iff_forall_ne_some]
    intro after hremoved
    obtain ⟨-, hforce | hunmarked⟩ := (hflame false).1.1 ⟨after, hremoved⟩
    · cases hforce
    · exact hunmarked hmarks
  · obtain ⟨after, hremoved⟩ := (hflame true).1.2 ⟨howner, .inl rfl⟩
    exact ⟨after, hremoved, ((hflame true).2.2 after hremoved).owned⟩

end Engine

end CardRules
