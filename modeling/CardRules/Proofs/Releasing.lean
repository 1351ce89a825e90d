import CardRules.Proofs.Exchange

/-!
What the effect that removes cards does. Of the selected cards it releases those that have an owner
and are not built in there, each of them once, however often they were selected and wherever one of
them lies below another. To release one card does not decide whether another can be released, so the
result can be read off the forest from before.
-/

namespace CardRules

open EngineM

namespace Forest

variable {forest after last : Forest} {parent child handle : Handle} {gone more : List Handle}

/-! ## Loose cards -/

/-- The owner of a card that is not built in there. -/
def looseOwner? (forest : Forest) (handle : Handle) : Option Handle :=
  (forest.owner? handle).filter fun owner =>
    !(forest.get? owner).any (·.intrinsic.contains handle)

theorem looseOwner?_eq_some_iff {owner : Handle} :
    forest.looseOwner? handle = some owner ↔
      forest.owner? handle = some owner ∧ ¬ forest.Marks owner handle := by
  have hmarks : forest.Marks owner handle ↔
      (forest.get? owner).any (·.intrinsic.contains handle) = true :=
    (Option.any_eq_true _ _).symm
  unfold looseOwner?
  rw [Option.filter_eq_some_iff, hmarks, Bool.not_eq_true']
  simp

/-- The cards of a list that are loose, each of them once and where it comes first. -/
def loosened (forest : Forest) (handles : List Handle) : List Handle :=
  (handles.filter fun handle => (forest.looseOwner? handle).isSome).eraseDups

theorem mem_loosened {handles : List Handle} :
    handle ∈ forest.loosened handles ↔
      handle ∈ handles ∧
        ∃ owner, forest.owner? handle = some owner ∧ ¬ forest.Marks owner handle := by
  unfold loosened
  rw [List.mem_eraseDups, List.mem_filter, Option.isSome_iff_exists]
  simp only [looseOwner?_eq_some_iff]

/-- The events that the loose cards of a list raise when they are removed. -/
def releases (forest : Forest) (handles : List Handle) : List Raised :=
  (forest.loosened handles).filterMap fun handle =>
    (forest.looseOwner? handle).map fun owner => ⟨handle, .removed owner⟩

/-- A card that is not loose makes no difference. -/
theorem loosened_cons_of_none (h : forest.looseOwner? child = none) (rest : List Handle) :
    forest.loosened (child :: rest) = forest.loosened rest := by
  unfold loosened
  rw [List.filter_cons_of_neg]
  simp [h]

/-! ## What was loosened -/

/-- What is built in stays built in, so the cards that are left are loose if they were before. -/
theorem Released.looseOwner? (h : Released gone forest after) (handle : Handle) :
    after.looseOwner? handle = if handle ∈ gone then none else forest.looseOwner? handle := by
  have hintrinsic : ∀ owner, (after.get? owner).any (·.intrinsic.contains handle) =
      (forest.get? owner).any (·.intrinsic.contains handle) := by
    intro owner
    rw [h owner]
    cases forest.get? owner <;> rfl
  unfold Forest.looseOwner?
  simp only [hintrinsic, h.owner? handle]
  split
  · rfl
  · rfl

/-- When the first card of a list was released, the loose ones of the rest are to follow. -/
theorem loosened_cons_of_released {owner : Handle}
    (hloose : forest.looseOwner? child = some owner) (h : Released [child] forest after)
    (rest : List Handle) : forest.loosened (child :: rest) = child :: after.loosened rest := by
  unfold loosened
  rw [List.filter_cons_of_pos (by simp [hloose]), List.eraseDups_cons, List.filter_filter]
  congr 2
  refine List.filter_congr fun handle _ => ?_
  rw [h.looseOwner?]
  by_cases heq : handle = child <;> simp [heq]

theorem releases_cons_of_released {owner : Handle}
    (hloose : forest.looseOwner? child = some owner) (h : Released [child] forest after)
    (rest : List Handle) :
    forest.releases (child :: rest) = ⟨child, .removed owner⟩ :: after.releases rest := by
  have hrest : ∀ handle ∈ after.loosened rest,
      after.looseOwner? handle = forest.looseOwner? handle := by
    intro handle hmem
    obtain ⟨-, other, hother⟩ := mem_loosened.1 hmem
    have hlater := looseOwner?_eq_some_iff.2 hother
    rw [h.looseOwner?] at hlater ⊢
    split at hlater
    · cases hlater
    next hkept => rw [if_neg hkept]
  unfold releases
  rw [loosened_cons_of_released hloose h, List.filterMap_cons, hloose]
  refine congrArg (List.cons _) (List.filterMap_congr fun handle hmem => ?_)
  rw [hrest handle hmem]

end Forest

namespace Engine

variable {engine after : Engine}

/-- Cards were released, and the events of that were delivered. -/
structure Releases (handles : List Handle) (engine after : Engine) : Prop where
  arises : after.Arises
  released : Forest.Released (engine.forest.loosened handles) engine.forest after.forest
  delivers : Delivers engine (engine.forest.releases handles) after

/-- To detach a card that is not loose is to do nothing. -/
theorem start_detach_of_looseOwner?_eq_none (h : engine.Arises) {child : Handle}
    (hnone : engine.forest.looseOwner? child = none) :
    (detach settleInside child false).start engine = some (.ok false, engine) := by
  have hsound := h.listed.linked.sound
  have hdetach : engine.forest.detach? child false = none := by
    unfold Forest.detach?
    split
    next owner howner =>
      rw [Option.eq_none_iff_forall_ne_some]
      intro forest hremove
      obtain ⟨-, hforce | hloose⟩ := (Forest.exists_remove?_iff hsound).1 ⟨forest, hremove⟩
      · cases hforce
      · rw [Forest.looseOwner?_eq_some_iff.2 ⟨howner, hloose⟩] at hnone
        cases hnone
    next => rfl
  have hrefuses : Refuses engine (detach · child false) (.ok false) :=
    .ofSettles h.outbox fun settle => by rw [start_detach, hdetach]
  exact hrefuses.1

/-- To detach cards one after the other is to release the loose ones. -/
theorem exists_forM_detach (handles : List Handle) (h : engine.Arises) :
    ∃ after, (handles.forM fun handle => discard (detach settleInside handle false)).start engine =
        some (.ok (), after) ∧ Releases handles engine after := by
  induction handles generalizing engine with
  | nil => exact ⟨engine, rfl, h, .refl engine.forest, delivers_nil engine⟩
  | cons first rest ih =>
    cases hloose : engine.forest.looseOwner? first with
    | none =>
      -- The first card stays where it is, and adds nothing.
      have hdone : (discard (detach settleInside first false)).start engine =
          some (.ok (), engine) := by
        rw [start_discard, start_detach_of_looseOwner?_eq_none h hloose]
        rfl
      obtain ⟨after, hrest, harises, hreleased, hdelivers⟩ := ih h
      rw [← Forest.loosened_cons_of_none hloose] at hreleased
      refine ⟨after, ?_, harises, hreleased, ?_⟩
      · rw [start_forM_cons _ first rest hdone, hrest]
      · unfold Forest.releases
        rw [Forest.loosened_cons_of_none hloose]
        exact hdelivers
    | some owner =>
      obtain ⟨howner, hunmarked⟩ := Forest.looseOwner?_eq_some_iff.1 hloose
      obtain ⟨forest, middle, hremove, hdetach, hmiddle, hforest, hfirst⟩ :=
        exists_detach_loose h howner hunmarked
      have hreleasedFirst : Forest.Released [first] engine.forest middle.forest := by
        have hremoved := Forest.released_remove? h.listed.linked.sound hremove
        rw [hforest]
        exact hremoved
      have hdone : (discard (detach settleInside first false)).start engine =
          some (.ok (), middle) := by
        rw [start_discard, hdetach]
        rfl
      obtain ⟨after, hrest, harises, hreleased, hdelivers⟩ := ih hmiddle
      refine ⟨after, ?_, harises, ?_, ?_⟩
      · rw [start_forM_cons _ first rest hdone, hrest]
      · rw [Forest.loosened_cons_of_released hloose hreleasedFirst]
        exact hreleasedFirst.trans hreleased
      · rw [Forest.releases_cons_of_released hloose hreleasedFirst]
        exact hfirst.trans (hreleasedFirst.sameView fun _ _ _ => rfl) hdelivers

/-! ## The effect -/

/-- While an event is processed, the effect that removes cards never fails, whatever the context is.
It takes the owner from those selected cards that have one and are not built in there, and deletes
them from the children of their owners; all other links and all else about the cards stay as they
are. The scheduler defers an event for each of them that is registered, in the order in which they
were first selected, and nothing else happens to the engine but that the listeners hear of it. -/
theorem removing_releases_what_is_loose (h : engine.Arises) (hprocessing : engine.isProcessing = true)
    (invoke : Invoker) (context : RuleContext) (selector : Selector) :
    ∃ selected gone after, selected = engine.selected selector context ∧
      gone = engine.forest.loosened selected ∧
      (Effect.run invoke context (.remove selector)).start engine = some (.ok (), after) ∧
      (∀ handle, handle ∈ gone ↔ handle ∈ selected ∧
        ∃ owner, engine.forest.owner? handle = some owner ∧
          ¬ engine.forest.Marks owner handle) ∧
      (∀ handle, after.forest.owner? handle =
        if handle ∈ gone then none else engine.forest.owner? handle) ∧
      (∀ handle, after.forest.children handle =
        (engine.forest.children handle).filter (· ∉ gone)) ∧
      Forest.Released gone engine.forest after.forest ∧
      after.forest.outbox = engine.forest.outbox ∧
      after.deferred = engine.deferred ++
        (engine.forest.releases selected).filter (engine.isRegistered ·.source) ∧
      Delivers engine (engine.forest.releases selected) after ∧
      after = { engine with
        forest := after.forest, deferred := after.deferred, journal := after.journal } := by
  have hdepth : engine.depth ≠ 0 := Nat.pos_iff_ne_zero.1 (of_decide_eq_true hprocessing)
  obtain ⟨after, hrun, harises, hreleased, hdelivers⟩ :=
    exists_forM_detach (engine.selected selector context) h
  have hqueue : after.queue = engine.queue := by
    rw [hdelivers.queue, if_neg hdepth, List.append_nil]
  refine ⟨_, _, after, rfl, rfl, ?_, fun handle => Forest.mem_loosened, hreleased.owner?,
    hreleased.children, hreleased, ?_, ?_, hdelivers, ?_⟩
  · rw [Effect.run, start_get_bind, hrun]
  · rw [harises.outbox, h.outbox]
  · rw [hdelivers.deferred, if_neg hdepth]
    rfl
  · rw [← hqueue]
    exact hdelivers.rest

/-- What is matched on the bench is a torch, twice, the flame that was built in, and the bench. -/
def clearing : RuleContext where
  rule := "clear"
  event := .use
  source := ⟨0⟩
  container := ⟨0⟩
  matched := [⟨1⟩, ⟨2⟩, ⟨1⟩, ⟨0⟩]
  maxDepth := none

/-- The torch comes off the bench, and that is reported once. The flame is built in and stays, and
nothing owns the bench. -/
theorem torches_are_released_once :
    ∃ engine : Engine, engine.Arises ∧ engine.isProcessing = true ∧
      engine.selected {} clearing = [⟨1⟩, ⟨2⟩, ⟨1⟩, ⟨0⟩] ∧
      engine.forest.children ⟨0⟩ = [⟨1⟩, ⟨2⟩] ∧
      ∀ invoke, ∃ after, (Effect.run invoke clearing (.remove {})).start engine =
          some (.ok (), after) ∧
        after.forest.children ⟨0⟩ = [⟨2⟩] ∧ after.forest.owner? ⟨1⟩ = none ∧
        after.forest.owner? ⟨2⟩ = some ⟨0⟩ ∧
        after.deferred = engine.deferred ++ [⟨⟨1⟩, .removed ⟨0⟩⟩] := by
  have hfacts : (run moving 1 lighting (new {} torches)).map (fun (result, engine) =>
      (result.isOk && engine.isRegistered ⟨1⟩,
        [engine.selected {} clearing, engine.forest.children ⟨0⟩,
          engine.forest.loosened [⟨1⟩, ⟨2⟩, ⟨1⟩, ⟨0⟩]],
        [engine.forest.looseOwner? ⟨1⟩, engine.forest.owner? ⟨2⟩])) =
      some (true, [[⟨1⟩, ⟨2⟩, ⟨1⟩, ⟨0⟩], [⟨1⟩, ⟨2⟩], [⟨1⟩]], [some ⟨0⟩, some ⟨0⟩]) := by
    decide +kernel
  obtain ⟨⟨result, engine⟩, hrun, hvalues⟩ := Option.map_eq_some_iff.1 hfacts
  simp only [Prod.mk.injEq, List.cons.injEq, and_true, Bool.and_eq_true] at hvalues
  obtain ⟨⟨hok, hregistered⟩, ⟨hselected, hchildren, hloosened⟩, hloose, howner⟩ := hvalues
  have hreachable : engine.Reachable :=
    reachable_of_isOk askOnly_moving asksOnly_lighting makesFresh_torches hrun hok
  have harises : engine.enter.Arises := .step hreachable.arises .enter
  have hprocessing : engine.enter.isProcessing = true := decide_eq_true (Nat.succ_pos _)
  refine ⟨engine.enter, harises, hprocessing, hselected, hchildren, fun invoke => ?_⟩
  obtain ⟨selected, gone, after, hfound, hgone, hdone, -, howners, hkept, -, -, hdeferred, -⟩ :=
    removing_releases_what_is_loose harises hprocessing invoke clearing {}
  obtain rfl : selected = [⟨1⟩, ⟨2⟩, ⟨1⟩, ⟨0⟩] := hfound.trans hselected
  obtain rfl : gone = [⟨1⟩] := hgone.trans hloosened
  have hreleases : engine.enter.forest.releases [⟨1⟩, ⟨2⟩, ⟨1⟩, ⟨0⟩] =
      [⟨⟨1⟩, .removed ⟨0⟩⟩] := by
    have hloose' : engine.enter.forest.looseOwner? ⟨1⟩ = some ⟨0⟩ := hloose
    unfold Forest.releases
    rw [← hgone, List.filterMap_cons, hloose']
    rfl
  refine ⟨after, hdone, ?_, ?_, ?_, ?_⟩
  · rw [hkept]
    exact congrArg (List.filter _) hchildren
  · exact howners ⟨1⟩
  · exact (howners ⟨2⟩).trans howner
  · rw [hdeferred, hreleases]
    exact congrArg _ (List.filter_cons_of_pos hregistered)

end Engine

end CardRules
