import CardRules.Proofs.Expansion
import CardRules.Proofs.Forest.Lineage

/-!
What comes of a card that is added once more. A card that comes in is taken as it is, with the links
and the listeners that it carries. For a card that was just described that is right; for a copy of
one in the forest it is right only if that one has no links and is not registered.
-/

namespace CardRules

open EngineM

/-! ## Copies in a forest -/

namespace Forest

variable {forest : Forest} {handle : Handle} {card : Card}

/-- A copy of a card lists the same children, and it has the same owner, which does not list it. So
the forest stays sound just if there are no links to copy. -/
theorem sound_insert_copy_iff (hsound : forest.Sound) (hcard : forest.get? handle = some card) :
    (forest.insert card).Sound ↔ card.links = (none, [], ∅) := by
  refine ⟨fun h => ?_, fun hlinks => hsound.insert_unlinked hlinks⟩
  have hne : handle ≠ forest.next := ne_next_of_contains (contains_iff.2 ⟨card, hcard⟩)
  have hcopy : (forest.insert card).get? forest.next = some card := by
    rw [get?_insert, if_pos rfl]
  have hold : (forest.insert card).get? handle = some card := by
    rw [get?_insert, if_neg hne, hcard]
  -- A child would be listed with the card and with its copy.
  have hchildren : card.children = [] := by
    rw [List.eq_nil_iff_forall_not_mem]
    intro child hmem
    rw [← children_of_get? hold] at hmem
    have hmem' : child ∈ (forest.insert card).children forest.next := by
      rwa [children_of_get? hcopy, ← children_of_get? hold]
    exact hne (h.parent_unique hmem hmem')
  -- The owner lists the cards it had before, and the copy was not there then.
  have howner : card.owner = none := by
    by_contra hsome
    obtain ⟨owner, howner⟩ := Option.ne_none_iff_exists'.1 hsome
    have hknown : forest.contains owner = true :=
      hsound.contains_owner ((owner?_of_get? hcard).trans howner)
    have hlisted : forest.next ∈ (forest.insert card).children owner :=
      h.mem_children_iff.2 ((owner?_of_get? hcopy).trans howner)
    have hsame : (forest.insert card).children owner = forest.children owner := by
      unfold children
      rw [get?_insert, if_neg (ne_next_of_contains hknown)]
    rw [hsame] at hlisted
    have hnew := hsound.contains_child hlisted
    rw [contains_next] at hnew
    cases hnew
  have hintrinsic : card.intrinsic = ∅ := by
    refine SortedSet.ext_contains fun child => ?_
    rw [SortedSet.contains_empty, ← Bool.not_eq_true]
    intro hmem
    have hchild := hsound.mem_children_of_intrinsic hcard hmem
    rw [hchildren] at hchild
    cases hchild
  unfold Card.links
  rw [howner, hchildren, hintrinsic]

end Forest

namespace Engine

variable {engine : Engine} {handle : Handle} {card : Card}

/-! ## Copies in an engine -/

/-- A card that comes in is registered, whatever it carries, and the scheduler listens to it once
more than before. -/
theorem get?_addCard_of_agrees (hagrees : engine.Agrees) (card : Card) :
    (engine.addCard card).isRegistered engine.forest.next = true ∧
      ∃ copy, (engine.addCard card).forest.get? engine.forest.next = some copy ∧
        copy.listeners = card.listeners ++ [.scheduler] := by
  have hinserted : { engine with forest := engine.forest.insert card }.forest.get?
      engine.forest.next = some card := by
    rw [Forest.get?_insert, if_pos rfl]
  have hnew : { engine with forest := engine.forest.insert card }.isRegistered
      engine.forest.next = false :=
    isRegistered_eq_false_iff.2 hagrees.keyOf?_next
  constructor
  · have hkey := keyOf?_register hnew hinserted engine.forest.next
    rw [if_pos rfl] at hkey
    exact isRegistered_of_keyOf? hkey
  · exact ⟨_, (get?_register hnew hinserted _).trans (if_pos rfl), rfl⟩

/-- An event of a card is taken on as often as the scheduler listens to the card. -/
theorem start_raise_settleInside (houtbox : engine.forest.outbox = [])
    (hcard : engine.forest.get? handle = some card) (hheard : card.listeners ≠ [])
    (event : Event) :
    ∃ after, (raise settleInside ⟨handle, event⟩).start engine = some (.ok (), after) ∧
      after.queue = engine.queue ++ (if engine.depth = 0 then
        List.replicate (card.listeners.count .scheduler) ⟨handle, event⟩ else []) ∧
      after.deferred = engine.deferred ++ if engine.depth = 0 then [] else
        List.replicate (card.listeners.count .scheduler) ⟨handle, event⟩ := by
  have hknown : engine.forest.contains handle = true := Forest.contains_iff.2 ⟨card, hcard⟩
  have hlistened : engine.forest.listened handle = true := by
    simp [Forest.listened, hcard, hheard]
  have hemitted : (engine.forest.emit handle event).outbox = [⟨handle, event⟩] := by
    rw [Forest.outbox_emit, houtbox, List.filter_singleton, hlistened]
    rfl
  let emptied : Engine :=
    { engine with forest := (engine.forest.emit handle event).emptied }
  have hemptied : emptied.forest.get? handle = some card := by
    rw [Forest.get?_emptied, Forest.get?_emit, hcard]
  have hdelivered : { engine with forest := engine.forest.emit handle event }.deliver =
      card.listeners.foldl (hand ⟨handle, event⟩) emptied := by
    unfold deliver
    rw [hemitted]
    show emptied.announce ⟨handle, event⟩ = _
    unfold announce
    rw [hemptied]
  refine ⟨{ engine with forest := engine.forest.emit handle event }.deliver, ?_, ?_, ?_⟩
  · rw [start_raise, if_pos hknown]
    rfl
  · rw [hdelivered, foldl_hand]
  · rw [hdelivered, foldl_hand]

theorem sound_addCard_copy_iff (h : engine.Arises) (hcard : engine.forest.get? handle = some card) :
    (engine.addCard card).forest.Sound ↔ card.links = (none, [], ∅) := by
  have hview : Forest.SameView Card.links (engine.forest.insert card)
      (engine.addCard card).forest :=
    sameView_register Card.links (fun _ _ => rfl)
      { engine with forest := engine.forest.insert card } engine.forest.next
  rw [← Forest.sound_insert_copy_iff h.listed.linked.sound hcard]
  exact ⟨hview.symm.sound, hview.sound⟩

/-! ## The law -/

/-- Adding a card of the engine once more is safe just if that card has no links and is not
registered. The forest stays sound just if there are no links to copy. The copy is registered in any
case, but the scheduler listens to the copy of a registered card twice, and takes its events on as
often. -/
theorem copies_are_safe_exactly_if_unlinked_and_unregistered (h : engine.Arises)
    (hcard : engine.forest.get? handle = some card) :
    ((engine.addCard card).forest.Sound ↔ card.links = (none, [], ∅)) ∧
      (engine.addCard card).isRegistered engine.forest.next = true ∧
      (∃ copy, (engine.addCard card).forest.get? engine.forest.next = some copy ∧
        copy.listeners.count .scheduler = if engine.isRegistered handle then 2 else 1) ∧
      ∀ event, ∃ after, (raise settleInside ⟨engine.forest.next, event⟩).start
          (engine.addCard card) = some (.ok (), after) ∧
        after.queue = engine.queue ++ (if engine.depth = 0 then
          List.replicate (if engine.isRegistered handle then 2 else 1)
            ⟨engine.forest.next, event⟩ else []) ∧
        after.deferred = engine.deferred ++ if engine.depth = 0 then [] else
          List.replicate (if engine.isRegistered handle then 2 else 1)
            ⟨engine.forest.next, event⟩ := by
  obtain ⟨hregistered, copy, hcopy, hlisteners⟩ := get?_addCard_of_agrees h.listed.agrees card
  have hcount : copy.listeners.count .scheduler =
      if engine.isRegistered handle then 2 else 1 := by
    rw [hlisteners, List.count_append, h.listed.agrees.heard handle card hcard]
    split <;> rfl
  refine ⟨sound_addCard_copy_iff h hcard, hregistered, ⟨copy, hcopy, hcount⟩, fun event => ?_⟩
  have houtbox : (engine.addCard card).forest.outbox = [] := by
    rw [outbox_addCard, h.outbox]
  have hheard : copy.listeners ≠ [] := by simp [hlisteners]
  have hschedule := sameSchedule_addCard engine card
  obtain ⟨after, hstart, hqueue, hdeferred⟩ := start_raise_settleInside houtbox hcopy hheard event
  rw [hcount, hschedule.depth] at hqueue hdeferred
  rw [hschedule.queue] at hqueue
  rw [hschedule.deferred] at hdeferred
  exact ⟨after, hstart, hqueue, hdeferred⟩

/-- A gem is put into a chest. -/
def hoarding : Program Unit :=
  .perform (.addCard { id := "chest", category := .building }) fun _ =>
  .perform (.addCard { id := "gem", category := .item }) fun _ =>
  .perform (.attach ⟨0⟩ ⟨1⟩ false) fun _ => .done ()

theorem asksOnly_hoarding : hoarding.AsksOnly Operation.BringsFresh :=
  ⟨⟨rfl, rfl, rfl, rfl, rfl⟩, fun _ => ⟨⟨rfl, rfl, rfl, rfl, rfl⟩, fun _ =>
    ⟨trivial, fun _ => trivial⟩⟩⟩

/-- The gem is registered and has an owner. -/
theorem exists_hoard :
    ∃ (engine : Engine) (card : Card), engine.Reachable ∧ engine.forest.get? ⟨1⟩ = some card ∧
      card.owner = some ⟨0⟩ ∧ engine.isRegistered ⟨1⟩ = true ∧ engine.depth = 0 ∧
      engine.forest.next = ⟨2⟩ := by
  have hfacts : (run moving 0 hoarding (new { autoPump := false })).map (fun (result, engine) =>
      (result.isOk, (engine.forest.get? ⟨1⟩).map (·.owner), engine.isRegistered ⟨1⟩, engine.depth,
        engine.forest.next)) = some (true, some (some ⟨0⟩), true, 0, ⟨2⟩) := by
    decide +kernel
  obtain ⟨⟨result, engine⟩, hrun, hvalues⟩ := Option.map_eq_some_iff.1 hfacts
  simp only [Prod.mk.injEq] at hvalues
  obtain ⟨hok, hgem, hregistered, hdepth, hnext⟩ := hvalues
  obtain ⟨card, hcard, howner⟩ := Option.map_eq_some_iff.1 hgem
  exact ⟨engine, card,
    reachable_of_isOk askOnly_moving asksOnly_hoarding makesFresh_of_none hrun hok, hcard, howner,
    hregistered, hdepth, hnext⟩

/-- To use a copy of the gem is to use it twice. -/
theorem copied_gems_are_used_twice :
    ∃ (engine : Engine) (card : Card) (after : Engine), engine.Reachable ∧
      engine.forest.get? ⟨1⟩ = some card ∧
      ¬ (engine.addCard card).forest.Sound ∧
      (raise settleInside ⟨⟨2⟩, .use⟩).start (engine.addCard card) = some (.ok (), after) ∧
      after.queue = engine.queue ++ [⟨⟨2⟩, .use⟩, ⟨⟨2⟩, .use⟩] := by
  obtain ⟨engine, card, hreachable, hcard, howner, hregistered, hdepth, hnext⟩ := exists_hoard
  obtain ⟨hsound, -, -, hraise⟩ :=
    copies_are_safe_exactly_if_unlinked_and_unregistered hreachable.arises hcard
  obtain ⟨after, hstart, hqueue, -⟩ := hraise .use
  rw [hnext] at hstart hqueue
  refine ⟨engine, card, after, hreachable, hcard, fun hafter => ?_, hstart, ?_⟩
  · have hlinks := congrArg Prod.fst (hsound.1 hafter)
    exact absurd (howner.symm.trans hlinks) (by simp)
  · rw [hqueue, hregistered, if_pos hdepth]
    rfl

/-- Adding a copy of a card is not always safe. -/
theorem copies_can_break_the_forest :
    ¬ ∀ (engine : Engine) (handle : Handle) (card : Card), engine.Reachable →
      engine.forest.get? handle = some card →
        (engine.addCard card).forest.Sound ∧
          (engine.addCard card).isRegistered engine.forest.next = true ∧
          ∃ copy, (engine.addCard card).forest.get? engine.forest.next = some copy ∧
            copy.listeners.count .scheduler = 1 := by
  intro hsafe
  obtain ⟨engine, card, hreachable, hcard, howner, -⟩ := exists_hoard
  obtain ⟨hafter, -⟩ := hsafe engine ⟨1⟩ card hreachable hcard
  have hlinks := congrArg Prod.fst ((sound_addCard_copy_iff hreachable.arises hcard).1 hafter)
  exact absurd (howner.symm.trans hlinks) (by simp)

end Engine

end CardRules
