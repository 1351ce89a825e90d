import CardRules.Forest.Links
import CardRules.Selector

/-!
Forests without listeners from outside. Hushing a forest takes these listeners off its cards, and
takes the events that only they would hear out of its outbox. No walk and no selection looks at
listeners, and what is done to a forest can be done to the hushed one as well.
-/

namespace CardRules

namespace Card

/-- The card without its listeners from outside. -/
def hushed (card : Card) : Card :=
  { card with listeners := card.listeners.filter (· = .scheduler) }

variable (card : Card)

/-- Nobody listens to a hushed card if the scheduler does not. -/
theorem isEmpty_listeners_hushed :
    card.hushed.listeners.isEmpty = decide (.scheduler ∉ card.listeners) := by
  rw [Bool.eq_iff_iff, List.isEmpty_iff, decide_eq_true_iff]
  show card.listeners.filter (· = .scheduler) = [] ↔ _
  rw [List.filter_eq_nil_iff]
  constructor
  · exact fun hothers hmem => hothers .scheduler hmem (decide_eq_true rfl)
  · exact fun hlistens listener hmem heq => hlistens (of_decide_eq_true heq ▸ hmem)

theorem hushed_of_listeners_eq_nil {card : Card} (h : card.listeners = []) : card.hushed = card := by
  obtain ⟨⟩ := card
  cases h
  rfl

theorem hushed_subscribe_scheduler :
    (card.subscribe .scheduler).hushed = card.hushed.subscribe .scheduler := by
  simp [hushed, subscribe]

theorem hushed_subscribe_external (listener : ListenerId) :
    (card.subscribe (.external listener)).hushed = card.hushed := by
  simp [hushed, subscribe]

theorem hushed_unsubscribe_scheduler :
    (card.unsubscribe .scheduler).hushed = card.hushed.unsubscribe .scheduler := by
  simp [hushed, unsubscribe, Bool.and_comm]

theorem hushed_unsubscribe_external (listener : ListenerId) :
    (card.unsubscribe (.external listener)).hushed = card.hushed := by
  have hothers (other : Listener) :
      (decide (other = .scheduler) && decide (other ≠ .external listener)) =
        decide (other = .scheduler) := by
    cases other <;> simp
  unfold hushed unsubscribe
  simp only [List.filter_filter, hothers]

end Card

namespace Forest

/-- Whether the scheduler listens to a card. -/
def scheduled (forest : Forest) (handle : Handle) : Bool :=
  (forest.get? handle).any (.scheduler ∈ ·.listeners)

/-- The forest without listeners from outside, and without the events that only they would hear. -/
def hushed (forest : Forest) : Forest where
  cards := forest.cards.map Card.hushed
  outbox := forest.outbox.filter (forest.scheduled ·.source)

@[simp] theorem hushed_empty : (∅ : Forest).hushed = ∅ := by
  show Forest.mk (#[].map Card.hushed) [] = Forest.mk #[] []
  rw [Array.map_empty]

variable (forest : Forest)

/-! ## Look-ups -/

@[simp] theorem get?_hushed (handle : Handle) :
    forest.hushed.get? handle = (forest.get? handle).map Card.hushed := by
  simp [get?, hushed]

@[simp] theorem size_hushed : forest.hushed.size = forest.size := by
  simp [size, hushed]

@[simp] theorem next_hushed : forest.hushed.next = forest.next := by
  simp [next]

@[simp] theorem contains_hushed (handle : Handle) :
    forest.hushed.contains handle = forest.contains handle := by
  simp [contains]

@[simp] theorem owner?_hushed (handle : Handle) :
    forest.hushed.owner? handle = forest.owner? handle := by
  unfold owner?
  rw [get?_hushed]
  cases forest.get? handle <;> rfl

@[simp] theorem children_hushed (handle : Handle) :
    forest.hushed.children handle = forest.children handle := by
  unfold children
  rw [get?_hushed]
  cases forest.get? handle <;> rfl

/-! ## Walks -/

theorem ownersFrom_hushed (steps : Nat) (start : Option Handle) :
    forest.hushed.ownersFrom steps start = forest.ownersFrom steps start := by
  induction steps generalizing start with
  | zero => rfl
  | succ steps ih =>
    cases start with
    | none => rfl
    | some handle =>
      unfold ownersFrom
      rw [owner?_hushed, ih]

@[simp] theorem ancestors_hushed (handle : Handle) :
    forest.hushed.ancestors handle = forest.ancestors handle := by
  unfold ancestors
  rw [size_hushed, owner?_hushed, ownersFrom_hushed]

theorem climb_hushed (steps : Nat) (handle : Handle) :
    forest.hushed.climb steps handle = forest.climb steps handle := by
  induction steps generalizing handle with
  | zero => rfl
  | succ steps ih =>
    unfold climb
    rw [owner?_hushed]
    split
    · exact ih _
    · rfl

@[simp] theorem containerOf_hushed (source : Handle) (distance : Int) :
    forest.hushed.containerOf source distance = forest.containerOf source distance := by
  unfold containerOf rootOf
  rw [ancestors_hushed, climb_hushed]

theorem visit_hushed (limit : Option Nat) (steps : Nat) (stack : List (Handle × Nat)) :
    forest.hushed.visit limit steps stack = forest.visit limit steps stack := by
  induction steps generalizing stack with
  | zero => rfl
  | succ steps ih =>
    cases stack with
    | nil => rfl
    | cons top stack => simp only [visit, children_hushed, ih]

@[simp] theorem descendants_hushed (root : Handle) (limit : Option Nat) :
    forest.hushed.descendants root limit = forest.descendants root limit := by
  unfold descendants
  rw [children_hushed, size_hushed, visit_hushed]

theorem select_hushed (selector : Selector) (selection : Selection) :
    selector.select forest.hushed selection = selector.select forest selection := by
  have hadmits : selector.admits forest.hushed = selector.admits forest := by
    funext handle
    unfold Selector.admits
    rw [get?_hushed]
    cases forest.get? handle with
    | none => rfl
    | some card => cases selector.filter <;> rfl
  unfold Selector.select Selector.candidates
  rw [hadmits, children_hushed, descendants_hushed]

/-! ## Changes -/

theorem cards_modify_hushed {change change' : Card → Card}
    (hchange : ∀ card, (change card).hushed = change' card.hushed) (handle : Handle) :
    (forest.modify handle change).hushed.cards = (forest.hushed.modify handle change').cards := by
  refine Array.ext_getElem? fun index => ?_
  simp only [hushed, modify, Array.getElem?_map, Array.getElem?_modify]
  split
  · cases forest.cards[index]? with
    | none => rfl
    | some card => simp [hchange]
  · rfl

/-- A change of a card, while nothing is in the outbox. -/
theorem hushed_modify_of_outbox (houtbox : forest.outbox = []) (change change' : Card → Card)
    (hchange : ∀ card, (change card).hushed = change' card.hushed) (handle : Handle) :
    (forest.modify handle change).hushed = forest.hushed.modify handle change' := by
  have hcards := forest.cards_modify_hushed hchange handle
  have hempty : forest.outbox.filter ((forest.modify handle change).scheduled ·.source) =
      forest.outbox.filter (forest.scheduled ·.source) := by
    rw [houtbox]
    rfl
  exact congr (congrArg Forest.mk hcards) hempty

/-- A change of listeners from outside, while nothing is in the outbox. -/
theorem hushed_modify_of_hushed_eq (houtbox : forest.outbox = []) (change : Card → Card)
    (hchange : ∀ card, (change card).hushed = card.hushed) (handle : Handle) :
    (forest.modify handle change).hushed = forest.hushed := by
  have hsame : forest.hushed.modify handle id = forest.hushed := by
    refine congrArg (Forest.mk · forest.hushed.outbox) (Array.ext_getElem? fun index => ?_)
    rw [Array.getElem?_modify]
    split
    · rw [Option.map_id]
      rfl
    · rfl
  rw [forest.hushed_modify_of_outbox houtbox change id hchange, hsame]

/-- A change that leaves the listeners of a card alone. -/
theorem hushed_modify {change : Card → Card}
    (hchange : ∀ card, (change card).hushed = change card.hushed)
    (hlisteners : ∀ card, (change card).listeners = card.listeners) (handle : Handle) :
    (forest.modify handle change).hushed = forest.hushed.modify handle change := by
  have hcards := forest.cards_modify_hushed hchange handle
  have hscheduled : (forest.modify handle change).scheduled = forest.scheduled := by
    funext other
    unfold scheduled
    rw [get?_modify]
    split
    · cases forest.get? other with
      | none => rfl
      | some card => simp [hlisteners]
    · rfl
  exact congr (congrArg Forest.mk hcards) (by rw [hscheduled]; rfl)

theorem hushed_emit (source : Handle) (event : Event) :
    (forest.emit source event).hushed = forest.hushed.emit source event := by
  have hadded : ({ forest with outbox := forest.outbox ++ [⟨source, event⟩] } : Forest).hushed =
      { forest.hushed with
        outbox := forest.hushed.outbox ++
          if forest.scheduled source then [⟨source, event⟩] else [] } := by
    show Forest.mk _ (List.filter _ (forest.outbox ++ [⟨source, event⟩])) = Forest.mk _ _
    rw [List.filter_append, List.filter_cons, List.filter_nil]
    rfl
  unfold emit
  rw [get?_hushed]
  cases hcard : forest.get? source with
  | none => rfl
  | some card =>
    have hscheduled : forest.scheduled source = decide (.scheduler ∈ card.listeners) := by
      simp [scheduled, hcard]
    by_cases hlistens : .scheduler ∈ card.listeners
    · have hloud : card.listeners.isEmpty = false := by
        rw [List.isEmpty_eq_false_iff]
        exact List.ne_nil_of_mem hlistens
      simp [hloud, hadded, hscheduled, Card.isEmpty_listeners_hushed, hlistens]
    · by_cases hempty : card.listeners.isEmpty = true
      · simp [hempty, Card.isEmpty_listeners_hushed, hlistens]
      · simp [hempty, hadded, hscheduled, Card.isEmpty_listeners_hushed, hlistens]

theorem hushed_foldl_emit (handles : List Handle) (event : Event) :
    (handles.foldl (·.emit · event) forest).hushed =
      handles.foldl (·.emit · event) forest.hushed := by
  induction handles generalizing forest with
  | nil => rfl
  | cons handle rest ih => rw [List.foldl_cons, ih, hushed_emit, List.foldl_cons]

/-- A new card without listeners comes in when nothing is in the outbox. -/
theorem hushed_insert (houtbox : forest.outbox = []) (card : Card) :
    (forest.insert card).hushed = forest.hushed.insert card.hushed := by
  simp [hushed, insert, houtbox]

theorem attach_hushed (parent child : Handle) (intrinsic : Bool) :
    forest.hushed.attach parent child intrinsic =
      (forest.attach parent child intrinsic).map hushed := by
  unfold attach
  rw [contains_hushed, get?_hushed, ancestors_hushed]
  cases forest.contains parent with
  | false => rfl
  | true =>
    cases forest.get? child with
    | none => rfl
    | some card =>
      have howner : card.hushed.owner = card.owner := rfl
      simp only [Option.map_some, howner, Bool.not_true, Bool.false_eq_true, if_false]
      by_cases hself : child = parent
      · rw [if_pos hself, if_pos hself]
        rfl
      · rw [if_neg hself, if_neg hself]
        cases card.owner with
        | some owner => rfl
        | none =>
          by_cases hcycle : child ∈ forest.ancestors parent
          · simp only [if_pos hcycle]
            rfl
          · simp only [if_neg hcycle]
            show Except.ok _ = Except.ok _
            rw [hushed_emit, hushed_modify, hushed_modify]
            · exact fun _ => rfl
            · exact fun _ => rfl
            · exact fun _ => rfl
            · exact fun _ => rfl

theorem remove?_hushed (parent child : Handle) (force : Bool) :
    forest.hushed.remove? parent child force =
      (forest.remove? parent child force).map hushed := by
  unfold remove?
  rw [get?_hushed]
  cases forest.get? parent with
  | none => rfl
  | some card =>
    have hchildren : card.hushed.children = card.children := rfl
    have hintrinsic : card.hushed.intrinsic = card.intrinsic := rfl
    simp only [Option.map_some, hchildren, hintrinsic]
    by_cases hchild : child ∈ card.children
    · by_cases hkept : (card.intrinsic.contains child && !force) = true
      · simp [hchild, hkept]
      · simp only [hchild, not_true_eq_false, hkept, if_false]
        show some _ = some _
        rw [hushed_emit, hushed_modify, hushed_modify]
        · exact fun _ => rfl
        · exact fun _ => rfl
        · exact fun _ => rfl
        · exact fun _ => rfl
    · simp [hchild]

theorem detach?_hushed (child : Handle) (force : Bool) :
    forest.hushed.detach? child force = (forest.detach? child force).map hushed := by
  unfold detach?
  rw [owner?_hushed]
  cases forest.owner? child with
  | none => rfl
  | some owner => exact forest.remove?_hushed owner child force

end Forest

end CardRules
