import CardRules.Proofs.Hearing
import CardRules.Proofs.Locality
import CardRules.Proofs.Mirroring
import Mathlib.Order.BooleanAlgebra.Set

/-!
Events of separate trees commute. With local rules, an event is processed within the tree that it
comes from: nothing else is changed by it, and nothing else is read. So two engines that agree on
that tree do the same there; and of two events from separate trees, it does not matter which one is
processed first.
-/

namespace CardRules

open EngineM

namespace Engine

variable {within : Set Handle} {origin origin' engine other : Engine} {handle parent child : Handle}
  {forest forest' : Forest}

/-! ## At work in a part of the forest -/

/-- An engine in the midst of an event that has been at work in a set of cards only: the others are
as they were in the beginning, and so is all but the forest, the deferred events and the journal. -/
structure Tends (within : Set Handle) (origin engine : Engine) : Prop where
  sound : engine.forest.Sound
  encloses : engine.forest.Encloses within
  sources : ∀ raised ∈ engine.forest.outbox, raised.source ∈ within
  others : Forest.Agree withinᶜ origin.forest engine.forest
  same : ∃ forest deferred journal, engine = { origin with forest, deferred, journal }

/-- Two engines that cannot be told apart from a set of cards, but for their queues and journals. -/
structure Alongside (within : Set Handle) (engine other : Engine) : Prop where
  agree : Forest.Agree within engine.forest other.forest
  outbox : other.forest.outbox = engine.forest.outbox
  same : ∃ forest queue journal, other = { engine with forest, queue, journal }

/-- Two engines have been at work in a set of cards only, and cannot be told apart from there. -/
structure Abreast (within : Set Handle) (origin origin' engine other : Engine) : Prop where
  left : Tends within origin engine
  right : Tends within origin' other
  alongside : Alongside within engine other

theorem Tends.depth_eq (h : Tends within origin engine) : engine.depth = origin.depth := by
  obtain ⟨_, _, _, rfl⟩ := h.same
  rfl

theorem Tends.withForest (h : Tends within origin engine) (hsound : forest.Sound)
    (hencloses : forest.Encloses within)
    (hsources : ∀ raised ∈ forest.outbox, raised.source ∈ within)
    (hothers : Forest.Agree withinᶜ engine.forest forest) :
    Tends within origin { engine with forest } := by
  refine ⟨hsound, hencloses, hsources, h.others.trans hothers, ?_⟩
  obtain ⟨_, deferred, journal, rfl⟩ := h.same
  exact ⟨forest, deferred, journal, rfl⟩

theorem Tends.deferring (h : Tends within origin engine) (deferred : List Raised)
    (journal : Array Entry) : Tends within origin { engine with deferred, journal } := by
  refine ⟨h.sound, h.encloses, h.sources, h.others, ?_⟩
  obtain ⟨forest, _, _, rfl⟩ := h.same
  exact ⟨forest, deferred, journal, rfl⟩

theorem Alongside.withForest (h : Alongside within engine other)
    (hagree : Forest.Agree within forest forest') (houtbox : forest'.outbox = forest.outbox) :
    Alongside within { engine with forest } { other with forest := forest' } := by
  refine ⟨hagree, houtbox, ?_⟩
  obtain ⟨_, queue, journal, rfl⟩ := h.same
  exact ⟨forest', queue, journal, rfl⟩

theorem Alongside.deferring (h : Alongside within engine other) (deferred : List Raised)
    (journal journal' : Array Entry) :
    Alongside within { engine with deferred, journal }
      { other with deferred, journal := journal' } := by
  refine ⟨h.agree, h.outbox, ?_⟩
  obtain ⟨forest, queue, _, rfl⟩ := h.same
  exact ⟨forest, queue, journal', rfl⟩

theorem Tends.record (h : Tends within origin engine) (entry : Entry) :
    Tends within origin (engine.record entry) :=
  h.deferring engine.deferred (engine.journal.push entry)

theorem Alongside.record (h : Alongside within engine other) (entry entry' : Entry) :
    Alongside within (engine.record entry) (other.record entry') := by
  refine ⟨h.agree, h.outbox, ?_⟩
  obtain ⟨forest, queue, _, rfl⟩ := h.same
  exact ⟨forest, queue, _, rfl⟩

theorem Alongside.deferred_eq (h : Alongside within engine other) :
    other.deferred = engine.deferred := by
  obtain ⟨_, _, _, rfl⟩ := h.same
  rfl

theorem Alongside.listened_eq (h : Alongside within engine other) (hin : handle ∈ within) :
    other.forest.listened handle = engine.forest.listened handle := by
  unfold Forest.listened
  rw [h.agree.cards handle hin]

/-! ## Changes of the forest -/

section

variable (h : Tends within origin engine)

include h

theorem Tends.modify {change : Card → Card} (hedits : Card.IsEdit change)
    (hin : handle ∈ within) :
    Tends within origin { engine with forest := engine.forest.modify handle change } := by
  have hview := Forest.sameView_modify (links_of_isEdit hedits) engine.forest handle
  exact h.withForest (hview.sound h.sound) (h.encloses.ofSame hview.owner?_eq) h.sources
    (Forest.agree_modify (Set.notMem_compl_iff.2 hin) change)

theorem Tends.emit {source : Handle} (hin : source ∈ within) (event : Event) :
    Tends within origin { engine with forest := engine.forest.emit source event } := by
  have hview : Forest.SameView Card.links engine.forest (engine.forest.emit source event) :=
    Forest.sameView_emit engine.forest source event
  refine h.withForest (h.sound.emit source event) (h.encloses.ofSame hview.owner?_eq)
    (fun raised hmem => ?_) (Forest.agree_emit source event)
  rcases mem_outbox_emit hmem with hold | rfl
  · exact h.sources raised hold
  · exact hin

theorem Tends.remove? {force : Bool}
    (hremove : engine.forest.remove? parent child force = some forest) (hparent : parent ∈ within)
    (hchild : child ∈ within) : Tends within origin { engine with forest } := by
  refine h.withForest (h.sound.remove? hremove) (h.encloses.remove? h.sound hremove)
    (fun raised hmem => ?_) (Forest.agree_remove? hremove (Set.notMem_compl_iff.2 hparent)
      (Set.notMem_compl_iff.2 hchild))
  rw [Forest.outbox_remove? hremove] at hmem
  rcases List.mem_append.1 hmem with hold | hnew
  · exact h.sources raised hold
  · rw [List.mem_singleton.1 (List.mem_of_mem_filter hnew)]
    exact hchild

end

section

variable (h : Abreast within origin origin' engine other)

include h

theorem Abreast.modifyCards {change : Card → Card} (hedits : Card.IsEdit change)
    {handles : List Handle} (hin : ∀ handle ∈ handles, handle ∈ within) :
    Abreast within origin origin' (engine.modifyCards handles change)
      (other.modifyCards handles change) := by
  induction handles generalizing engine other with
  | nil => exact h
  | cons handle rest ih =>
    have hfirst : Abreast within origin origin'
        { engine with forest := engine.forest.modify handle change }
        { other with forest := other.forest.modify handle change } :=
      ⟨h.left.modify hedits (hin handle List.mem_cons_self),
        h.right.modify hedits (hin handle List.mem_cons_self),
        h.alongside.withForest (h.alongside.agree.modify handle change) h.alongside.outbox⟩
    exact ih hfirst fun other hmem => hin other (List.mem_cons_of_mem _ hmem)

theorem Abreast.emit {source : Handle} (hin : source ∈ within) (event : Event) :
    Abreast within origin origin' { engine with forest := engine.forest.emit source event }
      { other with forest := other.forest.emit source event } := by
  refine ⟨h.left.emit hin event, h.right.emit hin event,
    h.alongside.withForest (h.alongside.agree.emit source event) ?_⟩
  rw [Forest.outbox_emit, Forest.outbox_emit, h.alongside.outbox, List.filter_singleton,
    List.filter_singleton, h.alongside.listened_eq hin]

/-- A child within is removed from both, or from none. -/
theorem Abreast.remove? (hparent : parent ∈ within) (hchild : child ∈ within) (force : Bool) :
    (engine.forest.remove? parent child force = none ∧
        other.forest.remove? parent child force = none) ∨
      ∃ forest forest', engine.forest.remove? parent child force = some forest ∧
        other.forest.remove? parent child force = some forest' ∧
        Abreast within origin origin' { engine with forest } { other with forest := forest' } := by
  rcases h.alongside.agree.remove? hparent child force with
    hnone | ⟨forest, forest', hremove, hremove', hagree⟩
  · exact .inl hnone
  · refine .inr ⟨forest, forest', hremove, hremove', h.left.remove? hremove hparent hchild,
      h.right.remove? hremove' hparent hchild, h.alongside.withForest hagree ?_⟩
    rw [Forest.outbox_remove? hremove, Forest.outbox_remove? hremove', h.alongside.outbox,
      List.filter_singleton, List.filter_singleton, h.alongside.listened_eq hchild]

end

/-! ## Delivery -/

/-- An event as often as the scheduler listens to its card. -/
def scheduled (forest : Forest) (raised : Raised) : List Raised :=
  List.replicate (((forest.get? raised.source).map (·.listeners.count .scheduler)).getD 0) raised

theorem exists_announce_eq (hdepth : 0 < engine.depth) (raised : Raised) :
    ∃ journal, engine.announce raised = { engine with
      deferred := engine.deferred ++ scheduled engine.forest raised, journal } := by
  unfold announce scheduled
  cases engine.forest.get? raised.source with
  | none => exact ⟨engine.journal, by simp⟩
  | some card =>
    simp only [foldl_hand, Nat.ne_of_gt hdepth, if_false, List.append_nil]
    exact ⟨_, rfl⟩

/-- While an event is processed, what is delivered to the scheduler is deferred. -/
theorem exists_deliver_eq (hdepth : 0 < engine.depth) :
    ∃ journal, engine.deliver = { engine with
      forest := engine.forest.emptied
      deferred := engine.deferred ++ engine.forest.outbox.flatMap (scheduled engine.forest)
      journal } := by
  have hevents : ∀ (events : List Raised) (here : Engine), 0 < here.depth →
      ∃ journal, events.foldl announce here = { here with
        deferred := here.deferred ++ events.flatMap (scheduled here.forest), journal } := by
    intro events
    induction events with
    | nil => exact fun here _ => ⟨here.journal, by simp⟩
    | cons raised rest ih =>
      intro here hhere
      obtain ⟨journal, hfirst⟩ := exists_announce_eq hhere raised
      obtain ⟨journal', hrest⟩ := ih (here.announce raised) (by rw [hfirst]; exact hhere)
      refine ⟨journal', ?_⟩
      rw [List.foldl_cons, hrest, hfirst, List.flatMap_cons, List.append_assoc]
  exact hevents engine.forest.outbox { engine with forest := engine.forest.emptied } hdepth

theorem Tends.deliver (h : Tends within origin engine) (hdepth : 0 < engine.depth) :
    Tends within origin engine.deliver := by
  obtain ⟨journal, hdeliver⟩ := exists_deliver_eq hdepth
  have hempty : Tends within origin { engine with forest := engine.forest.emptied } :=
    h.withForest h.sound.emptied h.encloses (fun _ hmem => by cases hmem) ⟨rfl, fun _ _ => rfl⟩
  rw [hdeliver]
  exact hempty.deferring _ journal

theorem Abreast.deliver (h : Abreast within origin origin' engine other)
    (hdepth : 0 < engine.depth) : Abreast within origin origin' engine.deliver other.deliver := by
  have hdepth' : 0 < other.depth := by
    obtain ⟨_, _, _, rfl⟩ := h.alongside.same
    exact hdepth
  refine ⟨h.left.deliver hdepth, h.right.deliver hdepth', ?_⟩
  obtain ⟨journal, hdeliver⟩ := exists_deliver_eq hdepth
  obtain ⟨journal', hdeliver'⟩ := exists_deliver_eq hdepth'
  -- The same events are delivered, and their cards are the same.
  have hscheduled : other.forest.outbox.flatMap (scheduled other.forest) =
      engine.forest.outbox.flatMap (scheduled engine.forest) := by
    rw [h.alongside.outbox]
    refine List.flatMap_congr fun raised hmem => ?_
    unfold scheduled
    rw [h.alongside.agree.cards raised.source (h.left.sources raised hmem)]
  have hempty : Alongside within { engine with forest := engine.forest.emptied }
      { other with forest := other.forest.emptied } :=
    h.alongside.withForest ⟨h.alongside.agree.size, h.alongside.agree.cards⟩ rfl
  rw [hdeliver, hdeliver', h.alongside.deferred_eq, hscheduled]
  exact hempty.deferring _ journal journal'

/-! ## Effects -/

section

variable {context : RuleContext} (h : Abreast within origin origin' engine other)
  (hdepth : 0 < origin.depth)

include h hdepth

theorem Abreast.settled : Abreast within origin origin' engine.deliver other.deliver :=
  h.deliver (h.left.depth_eq ▸ hdepth)

theorem concur_detach (hchild : child ∈ within) (force : Bool) :
    Concur (Abreast within origin origin') (detach settleInside child force)
      (detach settleInside child force) engine other := by
  have hstart := start_detach engine settleInside child force
  have hstart' := start_detach other settleInside child force
  have howner := h.alongside.agree.owner?_eq hchild
  unfold Forest.detach? at hstart hstart'
  rw [howner] at hstart'
  cases hlink : engine.forest.owner? child with
  | none =>
    rw [hlink] at hstart hstart'
    exact .ofOk (h.settled hdepth) hstart hstart'
  | some owner =>
    rw [hlink] at hstart hstart'
    have hparent := (h.left.encloses child owner hlink).1 hchild
    rcases h.remove? hparent hchild force with
      ⟨hnone, hnone'⟩ | ⟨forest, forest', hremove, hremove', hremoved⟩
    · simp only [hnone] at hstart
      simp only [hnone'] at hstart'
      exact .ofOk (h.settled hdepth) hstart hstart'
    · simp only [hremove] at hstart
      simp only [hremove'] at hstart'
      exact .ofOk (hremoved.settled hdepth) hstart hstart'

theorem concur_raise {raised : Raised} (hsource : engine.forest.Inside within raised.source) :
    Concur (Abreast within origin origin') (raise settleInside raised)
      (raise settleInside raised) engine other := by
  have hstart := start_raise engine settleInside raised
  have hstart' := start_raise other settleInside raised
  rw [if_pos hsource.1] at hstart
  rw [h.alongside.agree.contains_eq, if_pos hsource.1] at hstart'
  exact .ofOk ((h.emit hsource.2 raised.event).settled hdepth) hstart hstart'

omit hdepth in
theorem Abreast.selected_eq (hcontext : context.selection.Within within) (selector : Selector) :
    other.selected selector context = engine.selected selector context :=
  selector.select_congr h.alongside.agree h.left.encloses h.left.sound hcontext

omit hdepth in
theorem Abreast.inside_of_mem_selected (hcontext : context.selection.Within within)
    {selector : Selector} (hmem : handle ∈ engine.selected selector context) :
    engine.forest.Inside within handle :=
  selector.inside_of_mem_select h.left.encloses h.left.sound hcontext hmem

omit hdepth in
theorem Abreast.editSelected (hcontext : context.selection.Within within) (selector : Selector)
    {change : Card → Card} (hedits : Card.IsEdit change) :
    Abreast within origin origin' (engine.modifyCards (engine.selected selector context) change)
      (other.modifyCards (other.selected selector context) change) := by
  rw [h.selected_eq hcontext]
  exact h.modifyCards hedits fun handle hmem => (h.inside_of_mem_selected hcontext hmem).2

/-- Local effects do the same to both engines, and fail in none. -/
theorem concur_effect (invoke invoke' : Invoker) (hcontext : context.selection.Within within)
    {effect : Effect} (hlocal : effect.isLocal = true) :
    Concur (Abreast within origin origin') (effect.run invoke context)
      (effect.run invoke' context) engine other := by
  cases effect with
  | create | invoke => cases hlocal
  | remove selector =>
    refine .goingOn (start_get_bind _ _) (start_get_bind _ _) ?_
    rw [h.selected_eq hcontext]
    refine .forM h fun handle hmem here here' hhere => ?_
    exact (concur_detach hhere hdepth (h.inside_of_mem_selected hcontext hmem).2 false).map _
  | changeProperty selector name change =>
    exact .ofOk (h.editSelected hcontext selector (isEdit_changeProperties name change)) rfl rfl
  | addTag selector tag =>
    simp only [Effect.run]
    split
    · exact .ofOk h rfl rfl
    · exact .ofOk (h.editSelected hcontext selector (isEdit_addTag tag)) rfl rfl
  | removeTag selector tag =>
    exact .ofOk (h.editSelected hcontext selector (isEdit_removeTag tag)) rfl rfl
  | signal selector id payload =>
    refine .goingOn (start_get_bind _ _) (start_get_bind _ _) ?_
    rw [h.selected_eq hcontext]
    refine .forM h fun handle hmem here here' hhere => ?_
    -- No card has gone since the selection.
    have hsize : here.forest.size = engine.forest.size :=
      hhere.left.others.size.trans h.left.others.size.symm
    obtain ⟨hknown, hin⟩ := h.inside_of_mem_selected hcontext hmem
    exact concur_raise hhere hdepth
      ⟨(Forest.contains_eq_of_size_eq hsize handle).trans hknown, hin⟩

end

/-! ## Rules and events -/

section

variable (hdepth : 0 < origin.depth) (invoke invoke' : Invoker)

include hdepth

theorem concur_runMatches (h : Abreast within origin origin' engine other) {chosen : List Match}
    (hchosen : ∀ found ∈ chosen, found.rule.isLocal = true ∧
      found.context.selection.Within within) :
    Concur (Abreast within origin origin') (runMatches invoke chosen) (runMatches invoke' chosen)
      engine other := by
  induction chosen generalizing engine other with
  | nil => exact .ofOk h rfl rfl
  | cons found rest ih =>
    obtain ⟨hlocal, hcontext⟩ := hchosen found List.mem_cons_self
    have hfired : Abreast within origin origin'
        (engine.record (.fired engine.depth found.context))
        (other.record (.fired other.depth found.context)) :=
      ⟨h.left.record _, h.right.record _, h.alongside.record _ _⟩
    unfold runMatches
    refine .bind (.goingOn (start_runMatch engine invoke found) (start_runMatch other invoke' found)
      (.forM hfired fun effect hmem here here' hhere => ?_)) fun _ here here' hhere => ?_
    · exact concur_effect hhere hdepth invoke invoke' hcontext
        ((Rule.isLocal_iff.1 hlocal).2 effect hmem)
    · split
      · exact .ofOk hhere rfl rfl
      · exact ih hhere fun other hmem => hchosen other (List.mem_cons_of_mem _ hmem)

theorem concur_runRules (h : Abreast within origin origin' engine other) (hlocal : engine.Local)
    {raised : Raised} (hsource : engine.forest.Inside within raised.source) :
    Concur (Abreast within origin origin') (runRules invoke raised) (runRules invoke' raised)
      engine other := by
  obtain ⟨hconfig, hrules, hgenerator⟩ : other.config = engine.config ∧
      other.rules = engine.rules ∧ other.generator = engine.generator := by
    obtain ⟨_, _, _, rfl⟩ := h.alongside.same
    exact ⟨rfl, rfl, rfl⟩
  have hlocal' : other.Local := by
    unfold Local
    rw [hrules]
    exact hlocal
  have hfound := hlocal.fst_findMatches_congr h.alongside.agree h.left.encloses h.left.sound
    hsource hrules hgenerator
  have hstart := start_runRules engine invoke raised
  have hstart' := start_runRules other invoke' raised
  rw [hlocal.snd_findMatches] at hstart
  rw [hlocal'.snd_findMatches, hconfig, hfound] at hstart'
  refine .goingOn hstart hstart' (concur_runMatches hdepth invoke invoke' h fun found hmem => ?_)
  obtain ⟨hrule, chances, hgathered⟩ := rule_mem_of_mem_choose engine raised hmem
  exact ⟨hlocal found.rule hrule,
    (Rule.within_of_gather h.left.encloses h.left.sound hsource hgathered).1⟩

end

theorem Local.declarative (h : engine.Local) : engine.Declarative := by
  intro rule hrule name hmem
  have heffect := (Rule.isLocal_iff.1 (h rule hrule)).2 _ hmem
  cases heffect

theorem Alongside.refl (within : Set Handle) (engine : Engine) : Alongside within engine engine :=
  ⟨.refl within engine.forest, rfl, _, _, _, rfl⟩

theorem Alongside.enter (h : Alongside within engine other) :
    Alongside within engine.enter other.enter := by
  refine ⟨h.agree, h.outbox, ?_⟩
  obtain ⟨forest, queue, journal, rfl⟩ := h.same
  exact ⟨forest, queue, journal, rfl⟩

/-- An engine at rest processed an event within a set of cards: besides the cards there, and the
journal, nothing changed but that some events came into the queue. -/
structure Digests (within : Set Handle) (events : List Raised) (engine after : Engine) : Prop where
  sound : after.forest.Sound
  outbox : after.forest.outbox = []
  others : Forest.Agree withinᶜ engine.forest after.forest
  same : ∃ forest journal,
    after = { engine with forest, queue := engine.queue ++ events, journal }

theorem tends_enter (hrest : engine.AtRest) (hsound : engine.forest.Sound)
    (hencloses : engine.forest.Encloses within) : Tends within engine.enter engine.enter := by
  refine ⟨hsound, hencloses, fun raised hmem => ?_, .refl _ _, _, _, _, rfl⟩
  have hmem' : raised ∈ engine.forest.outbox := hmem
  rw [hrest.outbox] at hmem'
  cases hmem'

/-- With the last event done, what was deferred comes into the queue. -/
theorem Tends.leave_eq {after : Engine} (h : Tends within engine.enter after)
    (hrest : engine.AtRest) :
    after.leave = { engine with
      forest := after.forest, queue := engine.queue ++ after.deferred
      journal := after.journal } := by
  obtain ⟨forest, deferred, journal, rfl⟩ := h.same
  have hdepth := hrest.depth
  have hdeferred := hrest.deferred
  cases engine
  cases hdepth
  cases hdeferred
  rfl

theorem Tends.digests {after : Engine} (h : Tends within engine.enter after)
    (hrest : engine.AtRest) (houtbox : after.leave.forest.outbox = []) :
    Digests within after.deferred engine after.leave := by
  rw [h.leave_eq hrest] at houtbox ⊢
  exact ⟨h.sound, houtbox, h.others, _, _, rfl⟩

/-- Local rules process an event of a tree in the same way in all engines that cannot be told apart
from there. -/
theorem Local.exists_process (hlocal : engine.Local) (invoke : Invoker) (hrest : engine.AtRest)
    (hrest' : other.AtRest) (hsound : engine.forest.Sound) (hsound' : other.forest.Sound)
    (hencloses : engine.forest.Encloses within) (halongside : Alongside within engine other)
    {raised : Raised} (hsource : engine.forest.Inside within raised.source) :
    ∃ events after after',
      (process invoke raised).start engine = some (.ok (), after) ∧
      (process invoke raised).start other = some (.ok (), after') ∧
      Digests within events engine after ∧ Digests within events other after' ∧
      Forest.Agree within after.forest after'.forest := by
  have hentered : Abreast within engine.enter other.enter engine.enter other.enter :=
    ⟨tends_enter hrest hsound hencloses, tends_enter hrest' hsound'
      (halongside.agree.encloses hencloses hsound hsound'), halongside.enter⟩
  obtain ⟨_, after, after', hstart, hstart', hafter⟩ :=
    concur_runRules (Nat.succ_pos _) invoke invoke hentered hlocal hsource
  have hprocess : (process invoke raised).start engine = some (.ok (), after.leave) := by
    rw [start_process, start_thenAlways, hstart]
    rfl
  have hprocess' : (process invoke raised).start other = some (.ok (), after'.leave) := by
    rw [start_process, start_thenAlways, hstart']
    rfl
  have hlocal' : other.Local := by
    obtain ⟨_, _, _, rfl⟩ := halongside.same
    exact hlocal
  have houtbox := (hlocal.declarative.course_of_process hprocess).keeps outbox_stays hrest.outbox
  have houtbox' :=
    (hlocal'.declarative.course_of_process hprocess').keeps outbox_stays hrest'.outbox
  refine ⟨after.deferred, after.leave, after'.leave, hprocess, hprocess',
    hafter.left.digests hrest houtbox, ?_, ?_⟩
  · rw [← hafter.alongside.deferred_eq]
    exact hafter.right.digests hrest' houtbox'
  · rw [hafter.left.leave_eq hrest, hafter.right.leave_eq hrest']
    exact hafter.alongside.agree

/-! ## Two events -/

theorem Digests.atRest {events : List Raised} {after : Engine}
    (h : Digests within events engine after) (hrest : engine.AtRest) : after.AtRest := by
  have houtbox := h.outbox
  obtain ⟨forest, journal, rfl⟩ := h.same
  exact ⟨hrest.depth, hrest.pumping, hrest.deferred, houtbox⟩

theorem Digests.queue_eq {events : List Raised} {after : Engine}
    (h : Digests within events engine after) : after.queue = engine.queue ++ events := by
  obtain ⟨_, _, rfl⟩ := h.same
  rfl

/-- What two events in sequence come to, apart from the forest and the journal. -/
theorem Digests.eq_of_digests {elsewhere : Set Handle} {events events' : List Raised}
    {middle after : Engine} (hfirst : Digests within events engine middle)
    (hsecond : Digests elsewhere events' middle after) :
    after = { engine with
      forest := after.forest, queue := engine.queue ++ events ++ events'
      journal := after.journal } := by
  obtain ⟨_, _, rfl⟩ := hfirst.same
  obtain ⟨_, _, rfl⟩ := hsecond.same
  rfl

/-- From elsewhere, an engine that digested an event cannot be told from what it was before. -/
theorem Digests.alongside {elsewhere : Set Handle} {events : List Raised} {after : Engine}
    (h : Digests within events engine after) (hrest : engine.AtRest)
    (hapart : elsewhere ⊆ withinᶜ) : Alongside elsewhere engine after := by
  refine ⟨h.others.subset hapart, h.outbox.trans hrest.outbox.symm, ?_⟩
  obtain ⟨forest, journal, rfl⟩ := h.same
  exact ⟨forest, _, journal, rfl⟩

/-- Two events were digested in two orders, each in a set of cards of its own, and each set came to
the same in both orders. Then so did all cards. -/
theorem cards_eq_of_digests {elsewhere : Set Handle} (hapart : within ⊆ elsewhereᶜ)
    {events events' : List Raised} {middle middle' after after' : Engine}
    (hfirst : Digests within events engine middle)
    (hsecond : Digests elsewhere events' middle after)
    (hfirst' : Digests elsewhere events' engine middle')
    (hsecond' : Digests within events middle' after')
    (hagree : Forest.Agree elsewhere middle'.forest after.forest)
    (hagree' : Forest.Agree within middle.forest after'.forest) :
    after'.forest.cards = after.forest.cards := by
  refine Forest.Agree.cards_eq ⟨?_, fun handle _ => ?_⟩
  · rw [hsecond'.others.size, hfirst'.others.size, hsecond.others.size, hfirst.others.size]
  · by_cases hin : handle ∈ within
    · -- The second event of the one order, and the first of the other, left this card alone.
      rw [hagree'.cards handle hin, hsecond.others.cards handle (hapart hin)]
    · rw [hsecond'.others.cards handle hin]
      by_cases hin' : handle ∈ elsewhere
      · exact (hagree.cards handle hin').symm
      · rw [hfirst'.others.cards handle hin', hsecond.others.cards handle hin',
          hfirst.others.cards handle hin]

/-- Events of separate trees commute. In an engine that a program can come to, with local rules
only, two events of cards with different roots can be processed in both orders. Both orders end in
the same engine, but for the journal and for the queue: what each event brings into it is the same,
and comes in the order in which the two are processed. -/
theorem events_of_separate_trees_commute (hreachable : engine.Reachable) (hlocal : engine.Local)
    (invoke : Invoker) {first second : Raised}
    (hfirst : engine.forest.contains first.source = true)
    (hsecond : engine.forest.contains second.source = true)
    (hroots : engine.forest.rootOf first.source ≠ engine.forest.rootOf second.source) :
    ∃ after events events' journal,
      (do process invoke first; process invoke second).start engine = some (.ok (), after) ∧
      after.queue = engine.queue ++ events ++ events' ∧
      (do process invoke second; process invoke first).start engine = some (.ok (),
        { after with queue := engine.queue ++ events' ++ events, journal }) := by
  have hsound := hreachable.listed.linked.sound
  have hrest := hreachable.atRest
  have hapart := Forest.tree_subset_compl hroots
  have hapart' := Forest.tree_subset_compl hroots.symm
  have hin := Forest.mem_tree engine.forest
  have hencloses := Forest.encloses_tree hsound
  obtain ⟨events, middle, _, hstart, -, hmiddle, -, -⟩ :=
    hlocal.exists_process invoke hrest hrest hsound hsound (hencloses first.source)
      (.refl _ engine) ⟨hfirst, hin first.source⟩
  -- The second event finds the same before and after the first, and the other way round.
  obtain ⟨events', middle', after, hstart', hlast, hmiddle', hafter, hagree⟩ :=
    hlocal.exists_process invoke hrest (hmiddle.atRest hrest) hsound hmiddle.sound
      (hencloses second.source) (hmiddle.alongside hrest hapart') ⟨hsecond, hin second.source⟩
  obtain ⟨again, middle'', after', hagain, hlast', hmiddle'', hafter', hagree'⟩ :=
    hlocal.exists_process invoke hrest (hmiddle'.atRest hrest) hsound hmiddle'.sound
      (hencloses first.source) (hmiddle'.alongside hrest hapart)
      ⟨hfirst, hin first.source⟩
  obtain rfl : middle = middle'' := by simpa using hstart.symm.trans hagain
  obtain rfl : events = again :=
    List.append_cancel_left (hmiddle.queue_eq.symm.trans hmiddle''.queue_eq)
  have hcards := cards_eq_of_digests hapart hmiddle hafter hmiddle' hafter' hagree hagree'
  have hforest : after'.forest = after.forest := by
    have houtbox := hafter'.outbox.trans hafter.outbox.symm
    cases hleft : after'.forest
    cases hright : after.forest
    simp_all
  have hfinal : after' = { after with
      queue := engine.queue ++ events' ++ events, journal := after'.journal } := by
    calc after' = { engine with
          forest := after'.forest, queue := engine.queue ++ events' ++ events
          journal := after'.journal } := hmiddle'.eq_of_digests hafter'
      _ = _ := by rw [hforest, hmiddle.eq_of_digests hafter]
  refine ⟨after, events, events', after'.journal, ?_, ?_, ?_⟩
  · rw [start_bind, hstart]
    exact hlast
  · rw [hafter.queue_eq, hmiddle.queue_eq]
  · rw [start_bind, hstart', ← hfinal]
    exact hlast'

/-- Two chests with a coin in each. Using a chest opens it, takes the coin out and says so. -/
def chests : Program Unit :=
  .perform (.addCard { id := "chest", category := .item }) fun _ =>
  .perform (.addCard { id := "coin", category := .item }) fun _ =>
  .perform (.addCard { id := "chest", category := .item }) fun _ =>
  .perform (.addCard { id := "coin", category := .item }) fun _ =>
  .perform (.attach ⟨0⟩ ⟨1⟩ false) fun _ =>
  .perform (.attach ⟨2⟩ ⟨3⟩ false) fun _ =>
  .perform (.registerRule
    { name := "open", trigger := .use,
      requirements := [.has { scope := .children, filter := .id "coin" }],
      effects := [.addTag { scope := .source } "open", .remove {},
        .signal { scope := .container } "opened" none] }) fun _ => .done ()

theorem asksOnly_chests : chests.AsksOnly Operation.BringsFresh :=
  ⟨⟨rfl, rfl, rfl, rfl, rfl⟩, fun _ => ⟨⟨rfl, rfl, rfl, rfl, rfl⟩, fun _ =>
    ⟨⟨rfl, rfl, rfl, rfl, rfl⟩, fun _ => ⟨⟨rfl, rfl, rfl, rfl, rfl⟩, fun _ => ⟨trivial, fun _ =>
      ⟨trivial, fun _ => ⟨trivial, fun _ => trivial⟩⟩⟩⟩⟩⟩⟩

/-- Whichever chest is opened first, both coins are taken out in the end. -/
theorem chests_open_in_any_order :
    ∃ engine after events events' journal, engine.Reachable ∧ engine.Local ∧
      (do process (invoker moving 0) ⟨⟨0⟩, .use⟩
          process (invoker moving 0) ⟨⟨2⟩, .use⟩).start engine = some (.ok (), after) ∧
      after.queue = engine.queue ++ events ++ events' ∧
      (do process (invoker moving 0) ⟨⟨2⟩, .use⟩
          process (invoker moving 0) ⟨⟨0⟩, .use⟩).start engine = some (.ok (),
        { after with queue := engine.queue ++ events' ++ events, journal }) ∧
      after.forest.owner? ⟨1⟩ = none ∧ after.forest.owner? ⟨3⟩ = none := by
  have hfacts : ((run moving 0 chests (new { autoPump := false })).bind fun (result, engine) =>
      ((process (invoker moving 0) ⟨⟨0⟩, .use⟩ >>= fun _ =>
          process (invoker moving 0) ⟨⟨2⟩, .use⟩).start engine).map fun (_, after) =>
        ((result.isOk, decide engine.Local),
          (engine.forest.contains ⟨0⟩, engine.forest.contains ⟨2⟩),
          (engine.forest.rootOf ⟨0⟩, engine.forest.rootOf ⟨2⟩),
          after.forest.owner? ⟨1⟩, after.forest.owner? ⟨3⟩)) =
      some ((true, true), (true, true), (⟨0⟩, ⟨2⟩), none, none) := by
    decide +kernel
  obtain ⟨⟨result, engine⟩, hrun, hopened⟩ := Option.bind_eq_some_iff.1 hfacts
  obtain ⟨⟨outcome, last⟩, hlast, hvalues⟩ := Option.map_eq_some_iff.1 hopened
  simp only [Prod.mk.injEq, decide_eq_true_eq] at hvalues
  obtain ⟨⟨hok, hlocal⟩, ⟨hfirst, hsecond⟩, ⟨hroot, hroot'⟩, hcoin, hcoin'⟩ := hvalues
  have hreachable : engine.Reachable :=
    reachable_of_isOk askOnly_moving asksOnly_chests makesFresh_of_none hrun hok
  have hroots : engine.forest.rootOf ⟨0⟩ ≠ engine.forest.rootOf ⟨2⟩ := by
    rw [hroot, hroot']
    decide
  obtain ⟨after, events, events', journal, hstart, hqueue, hother⟩ :=
    @events_of_separate_trees_commute engine hreachable hlocal (invoker moving 0)
      ⟨⟨0⟩, .use⟩ ⟨⟨2⟩, .use⟩ hfirst hsecond hroots
  obtain ⟨rfl, rfl⟩ : outcome = .ok () ∧ last = after := by
    simpa using hlast.symm.trans hstart
  exact ⟨engine, last, events, events', journal, hreachable, hlocal, hstart, hqueue, hother,
    hcoin, hcoin'⟩

end Engine

end CardRules
