import CardRules.Proofs.Declarative
import CardRules.Proofs.Hearing
import Mathlib.Data.List.Sort

/-!
What is raised is delivered once, and every listener hears it once. The numbers of external
listeners have 32 bits. As long as no number was given out twice, exactly the listeners of a card
hear its events: each of them once, in the order of subscription, and with the note that it came
with. When the numbers start over, a listener can lose its place in the table. Then it hears nothing
any more, although it is still subscribed.
-/

namespace CardRules.Engine

variable {engine after : Engine} {handle : Handle} {id : ListenerId} {note : Data}

/-! ## Who hears an event -/

/-- Exactly the external listeners of its card hear an event, each of them once and in the order of
subscription, and they are the entries of the table that are subscribed to the card. -/
structure HeardInOrder (engine : Engine) (raised : Raised) : Prop where
  heard : (engine.hearings raised).map (·.1) = engine.audience raised.source
  ascending : (engine.audience raised.source).Pairwise (·.number < ·.number)
  tabled : engine.hearings raised =
    (engine.listeners.filter fun (id, _) => engine.isSubscribed raised.source id).map
      fun (id, note) => (id, note, raised)

theorem Attended.find?_eq_some_iff (h : engine.Attended) {entry : ListenerId × Data} :
    engine.listeners.find? (·.1 = id) = some entry ↔ entry ∈ engine.listeners ∧ entry.1 = id := by
  constructor
  · intro hfind
    exact ⟨List.mem_of_find?_eq_some hfind, by simpa using List.find?_some hfind⟩
  · rintro ⟨hmem, rfl⟩
    -- The numbers ascend, so no entry but this one has its number.
    obtain ⟨before, rest, hsplit⟩ := List.append_of_mem hmem
    have hascending := h.ascending
    rw [hsplit] at hascending
    have hbefore := (List.pairwise_append.1 hascending).2.2
    rw [List.find?_eq_some_iff_append]
    refine ⟨by simp, before, rest, hsplit, fun other hother => ?_⟩
    have hless := hbefore other hother entry List.mem_cons_self
    simp only [Bool.not_eq_true', decide_eq_false_iff_not]
    intro heq
    rw [heq] at hless
    omega

/-- Those who listen to a card stand in the table, and in the same order there. -/
theorem Attended.filterMap_find? (h : engine.Attended) (handle : Handle) :
    (engine.audience handle).filterMap (fun id => engine.listeners.find? (·.1 = id)) =
      engine.listeners.filter fun (id, _) => engine.isSubscribed handle id := by
  -- Both lists ascend and have the same entries, so they are equal.
  let before (first second : ListenerId × Data) : Prop := first.1.number < second.1.number
  have : Std.Irrefl before := ⟨fun _ => Nat.lt_irrefl _⟩
  have : Std.Antisymm before := ⟨fun _ _ h h' => absurd h (Nat.lt_asymm h')⟩
  have hleft : ((engine.audience handle).filterMap
      fun id => engine.listeners.find? (·.1 = id)).Pairwise before := by
    refine (h.ordered handle).filterMap _ fun first second hless entry hentry other hother => ?_
    obtain ⟨-, rfl⟩ := h.find?_eq_some_iff.1 hentry
    obtain ⟨-, rfl⟩ := h.find?_eq_some_iff.1 hother
    exact hless
  refine hleft.eq_of_mem_iff (h.ascending.filter _) fun entry => ?_
  rw [List.mem_filterMap, List.mem_filter]
  constructor
  · rintro ⟨id, hid, hfind⟩
    obtain ⟨hmem, rfl⟩ := h.find?_eq_some_iff.1 hfind
    exact ⟨hmem, isSubscribed_iff.2 hid⟩
  · rintro ⟨hmem, hsubscribed⟩
    exact ⟨entry.1, isSubscribed_iff.1 hsubscribed, h.find?_eq_some_iff.2 ⟨hmem, rfl⟩⟩

theorem Attended.heardInOrder (h : engine.Attended) (raised : Raised) :
    engine.HeardInOrder raised where
  heard := by
    have hfound : ∀ id ∈ engine.audience raised.source,
        (engine.listeners.find? (·.1 = id)).map (·.1) = some id := by
      intro id hmem
      obtain ⟨note, hentry⟩ := h.known raised.source id hmem
      rw [h.find?_eq_some_iff.2 ⟨hentry, rfl⟩]
      simp
    unfold hearings
    rw [List.map_map, List.map_filterMap]
    exact (List.filterMap_congr hfound).trans List.filterMap_some
  ascending := h.ordered raised.source
  tabled := by
    unfold hearings
    rw [h.filterMap_find?]

/-! ## What becomes of a subscription -/

/-- A number was given out for a card and with a note, and nobody else has it. -/
structure GivenTo (engine : Engine) (id : ListenerId) (handle : Handle) (note : Data) : Prop where
  given : id.number < engine.subscriptions
  placed : ∀ other, id ∈ engine.audience other → other = handle
  noted : ∀ entry ∈ engine.listeners, entry.1 = id → entry.2 = note

theorem mem_listeners_subscribe {entry : ListenerId × Data}
    (hmem : entry ∈ (engine.subscribe handle note).listeners) :
    entry ∈ engine.listeners ∧ entry.1 ≠ engine.nextListener ∨
      entry = (engine.nextListener, note) := by
  rcases List.mem_append.1 hmem with hold | hnew
  · obtain ⟨hentry, hother⟩ := List.mem_filter.1 hold
    exact .inl ⟨hentry, by simpa using hother⟩
  · exact .inr (List.mem_singleton.1 hnew)

/-- A new number is given to the new listener only. -/
theorem Attended.givenTo_subscribe (h : engine.Attended)
    (hknown : engine.forest.contains handle = true) (hbound : engine.subscriptions < UInt32.size)
    (note : Data) : (engine.subscribe handle note).GivenTo engine.nextListener handle note where
  given := by
    rw [number_nextListener hbound]
    exact Nat.lt_succ_self _
  placed other hmem := by
    rcases mem_audience_subscribe hknown hmem with hold | ⟨hother, -⟩
    · have hless := h.number_lt hold
      rw [number_nextListener hbound] at hless
      omega
    · exact hother
  noted entry hmem hid := by
    rcases mem_listeners_subscribe hmem with ⟨-, hother⟩ | rfl
    · exact absurd hid hother
    · rfl

/-- The next listener gets a number of its own, as long as there is one. -/
theorem GivenTo.subscribe (h : engine.GivenTo id handle note) {other : Handle}
    (hknown : engine.forest.contains other = true) (hbound : engine.subscriptions < UInt32.size)
    (data : Data) : (engine.subscribe other data).GivenTo id handle note := by
  have hnew : id ≠ engine.nextListener := by
    rintro rfl
    have hless := h.given
    rw [number_nextListener hbound] at hless
    omega
  refine ⟨Nat.lt_succ_of_lt h.given, fun third hmem => ?_, fun entry hmem hid => ?_⟩
  · rcases mem_audience_subscribe hknown hmem with hold | ⟨-, heq⟩
    · exact h.placed third hold
    · exact absurd heq hnew
  · rcases mem_listeners_subscribe hmem with ⟨hold, -⟩ | rfl
    · exact h.noted entry hold hid
    · exact absurd hid.symm hnew

theorem GivenTo.unsubscribe (h : engine.GivenTo id handle note) (other : Handle)
    (listener : ListenerId) : (engine.unsubscribe other listener).GivenTo id handle note := by
  by_cases hsubscribed : engine.isSubscribed other listener = true
  · refine ⟨?_, fun third hmem => ?_, fun entry hmem => ?_⟩
    · rw [subscriptions_unsubscribe]
      exact h.given
    · rw [audience_unsubscribe hsubscribed] at hmem
      split at hmem
      next heq =>
        rw [heq]
        exact h.placed other (List.mem_of_mem_filter hmem)
      next => exact h.placed third hmem
    · unfold Engine.unsubscribe at hmem
      rw [if_pos hsubscribed] at hmem
      exact h.noted entry (List.mem_of_mem_filter hmem)
  · unfold Engine.unsubscribe
    rw [if_neg hsubscribed]
    exact h

theorem SameAudience.givenTo (hsame : SameAudience engine after)
    (h : engine.GivenTo id handle note) : after.GivenTo id handle note := by
  obtain ⟨hlisteners, hcount, haudience⟩ := hsame
  refine ⟨?_, fun other => ?_, ?_⟩
  · rw [hcount]
    exact h.given
  · rw [haudience]
    exact h.placed other
  · rw [hlisteners]
    exact h.noted

theorem Step.givenTo (hstep : Step Operation.BringsFresh engine after)
    (hlinked : engine.SoundlyLinked) (hbound : after.subscriptions ≤ UInt32.size)
    (h : engine.GivenTo id handle note) : after.GivenTo id handle note := by
  rcases hstep.audience hlinked with hsame | ⟨other, data, hknown, rfl⟩ | ⟨other, listener, rfl⟩
  · exact hsame.givenTo h
  · exact h.subscribe hknown hbound data
  · exact h.unsubscribe other listener

/-- Whatever happens, a number stays with whom it was given to as long as there are new ones. -/
theorem Arises.givenTo_of_steps (h : engine.Arises)
    (hgiven : engine.subscriptions ≤ UInt32.size → engine.GivenTo id handle note)
    (hsteps : Relation.ReflTransGen (Step Operation.BringsFresh) engine after) :
    after.Arises ∧ (after.subscriptions ≤ UInt32.size → after.GivenTo id handle note) := by
  induction hsteps with
  | refl => exact ⟨h, hgiven⟩
  | tail _ hstep ih =>
    obtain ⟨harises, hkept⟩ := ih
    have hlinked := harises.listed.linked
    refine ⟨harises.step hstep, fun hbound => ?_⟩
    have hle := hstep.subscriptions_le hlinked
    exact hstep.givenTo hlinked hbound (hkept (by omega))

/-- What is heard under a number: the events of one card, with one note, and as long as the card has
the listener. -/
def HeardAs (engine : Engine) (id : ListenerId) (handle : Handle) (note : Data) : Prop :=
  ∀ raised heard, heard ∈ engine.hearings raised ∧ heard.1 = id ↔
    engine.isSubscribed handle id = true ∧ raised.source = handle ∧ heard = (id, note, raised)

theorem Attended.heardAs (h : engine.Attended) (hgiven : engine.GivenTo id handle note) :
    engine.HeardAs id handle note := by
  intro raised heard
  unfold hearings
  simp only [List.mem_map, List.mem_filterMap, h.find?_eq_some_iff, isSubscribed_iff]
  constructor
  · rintro ⟨⟨entry, ⟨other, hother, hentry, rfl⟩, rfl⟩, rfl⟩
    have hsource := hgiven.placed raised.source hother
    have hnote := hgiven.noted entry hentry rfl
    rw [← hsource, ← hnote]
    exact ⟨hother, rfl, rfl⟩
  · rintro ⟨hmem, rfl, rfl⟩
    obtain ⟨data, hentry⟩ := h.known raised.source id hmem
    have hnote : data = note := hgiven.noted (id, data) hentry rfl
    rw [← hnote]
    exact ⟨⟨(id, data), ⟨id, hmem, hentry, rfl⟩, rfl⟩, rfl⟩

/-- A listener is called with the note that it subscribed with, for the card that it subscribed to,
and until it unsubscribes. -/
theorem Arises.heardAs_of_steps (h : engine.Arises) {invoke : Invoker} {later : Engine}
    (hstart : (perform invoke (.subscribe handle note)).start engine =
      some (.ok (.listener id), after))
    (hsteps : Relation.ReflTransGen (Step Operation.BringsFresh) after later)
    (hbound : later.subscriptions ≤ UInt32.size) : later.HeardAs id handle note := by
  rw [start_subscribe] at hstart
  split at hstart
  next hknown =>
    cases hstart
    have hafter : (engine.subscribe handle note).Arises :=
      h.step (.change (.subscribe trivial hknown))
    have hgiven : (engine.subscribe handle note).subscriptions ≤ UInt32.size →
        (engine.subscribe handle note).GivenTo engine.nextListener handle note := by
      intro hle
      have hless : engine.subscriptions < UInt32.size := hle
      exact (h.attended (by omega)).givenTo_subscribe hknown hless note
    obtain ⟨hlater, hkept⟩ := hafter.givenTo_of_steps hgiven hsteps
    exact (hlater.attended hbound).heardAs (hkept hbound)
  next => cases hstart

/-! ## The law -/

/-- What an operation raises is delivered once, and an operation that is refused raises nothing.
Ticks are raised on all registered cards by ascending handle. As long as no number was given out
twice, exactly the listeners of a card hear its events, in order, and a listener is called for the
card and with the note that it subscribed with. -/
structure DeliversOnce (engine : Engine) : Prop where
  raise : ∀ raised, HandsOut engine (raise · raised) [raised] () ∨
    ∃ error, Refuses engine (raise · raised) (.error error)
  attach : ∀ parent child intrinsic,
    HandsOut engine (attach · parent child intrinsic) [⟨child, .added parent⟩] () ∨
      ∃ error, Refuses engine (attach · parent child intrinsic) (.error error)
  removeChild : ∀ parent child force,
    HandsOut engine (removeChild · parent child force) [⟨child, .removed parent⟩] true ∨
      Refuses engine (removeChild · parent child force) (.ok false)
  detach : ∀ child force,
    (∃ owner, engine.forest.owner? child = some owner ∧
      HandsOut engine (detach · child force) [⟨child, .removed owner⟩] true) ∨
      Refuses engine (detach · child force) (.ok false)
  tickAll : ∃ handles : List Handle, handles.Pairwise (·.index < ·.index) ∧
    (∀ handle, handle ∈ handles ↔ engine.isRegistered handle = true) ∧
    HandsOut engine tickAll (handles.map (⟨·, .tick⟩)) ()
  heard : engine.subscriptions ≤ UInt32.size → ∀ raised, engine.HeardInOrder raised
  subscribed : ∀ (invoke : Invoker) (handle : Handle) (note : Data) (id : ListenerId)
    (after later : Engine),
    (perform invoke (.subscribe handle note)).start engine = some (.ok (.listener id), after) →
    Relation.ReflTransGen (Step Operation.BringsFresh) after later →
    later.subscriptions ≤ UInt32.size → later.HeardAs id handle note

theorem Arises.deliversOnce (h : engine.Arises) : engine.DeliversOnce where
  raise := h.raise
  attach := h.attach
  removeChild := h.removeChild
  detach := h.detach
  tickAll := ⟨engine.registry.handles, engine.registry.pairwise_handles,
    engine.registry.mem_handles_iff, h.tickAll⟩
  heard hbound := (h.attended hbound).heardInOrder
  subscribed _ _ _ _ _ _ := h.heardAs_of_steps

/-- Whatever the cards, rules and callbacks are, what an operation raises is delivered exactly once,
and heard by the listeners of its card as long as no number was given out twice: in every engine
that a program or a callback sees, and in every engine that arises at all, so that it is the same
inside effects, from one operation to the next. -/
theorem events_are_delivered_once {α : Type} {callbacks : Callbacks} {depth : Nat}
    {program : Program α} {config : Config} {factory : Option Factory}
    (hcallbacks : callbacks.AskOnly Operation.BringsFresh)
    (hprogram : program.AsksOnly Operation.BringsFresh)
    (hfactory : ∀ made, factory = some made → made.MakesFresh) :
    Upholds DeliversOnce callbacks depth program (new config factory) ∧
      ∀ engine : Engine, engine.Arises → engine.DeliversOnce :=
  ⟨upholds_of_stays arises_stays (fun _ h => h.deliversOnce) hcallbacks depth hprogram
    (.new hfactory), fun _ h => h.deliversOnce⟩

/-- Two listen to a bell, and the use of the bell is a signal as well. -/
def ringing : Program Unit :=
  .perform (.addCard { id := "bell", category := .item }) fun _ =>
  .perform (.subscribe ⟨0⟩ (.text "first")) fun _ =>
  .perform (.subscribe ⟨0⟩ (.text "second")) fun _ =>
  .perform (.registerRule { name := "ring", trigger := .use, effects :=
    [.signal { scope := .source } "rung" none] }) fun _ =>
  .perform (.raise ⟨⟨0⟩, .use⟩) fun _ => .done ()

theorem asksOnly_ringing : ringing.AsksOnly Operation.BringsFresh :=
  ⟨⟨rfl, rfl, rfl, rfl, rfl⟩, fun _ => ⟨trivial, fun _ => ⟨trivial, fun _ => ⟨trivial, fun _ =>
    ⟨trivial, fun _ => trivial⟩⟩⟩⟩⟩

/-- Both hear the use and then the signal, and both would hear the next use. -/
theorem ringing_is_heard_once :
    ∃ result after, run moving 1 ringing (new {}) = some (result, after) ∧
      (after.journal.toList.filterMap Entry.heard?).map (·.1.number) = [0, 1, 0, 1] ∧
      (after.hearings ⟨⟨0⟩, .use⟩).map (·.1.number) = [0, 1] ∧
      after.isRegistered ⟨0⟩ = true ∧ after.HeardInOrder ⟨⟨0⟩, .use⟩ ∧ after.DeliversOnce := by
  have hfacts : (run moving 1 ringing (new {})).map (fun (_, after) =>
      ((after.journal.toList.filterMap Entry.heard?).map (·.1.number),
        (after.hearings ⟨⟨0⟩, .use⟩).map (·.1.number), after.isRegistered ⟨0⟩,
        after.subscriptions)) = some ([0, 1, 0, 1], [0, 1], true, 2) := by
    decide +kernel
  obtain ⟨⟨result, after⟩, hrun, hvalues⟩ := Option.map_eq_some_iff.1 hfacts
  simp only [Prod.mk.injEq] at hvalues
  obtain ⟨hheard, hhearings, hregistered, hcount⟩ := hvalues
  have hlaw : Upholds DeliversOnce moving 1 ringing (new {}) :=
    (events_are_delivered_once askOnly_moving asksOnly_ringing makesFresh_of_none).1
  have honce := hlaw.final hrun
  have hbound : after.subscriptions ≤ UInt32.size := by
    rw [hcount]
    decide
  exact ⟨result, after, hrun, hheard, hhearings, hregistered, honce.heard hbound _, honce⟩

/-! ## When the numbers start over -/

/-- So many listeners come to a door and go again, one after the other. -/
def passing : Nat → Program Unit
  | 0 => .done ()
  | rounds + 1 =>
    .perform (.subscribe ⟨1⟩ (.text "passing")) fun
      | .ok (.listener id) => .perform (.unsubscribe ⟨1⟩ id) fun _ => passing rounds
      | .ok _ => .done ()
      | .error error => .fail error

/-- A listener waits at a bell while others pass by at a door. -/
def waiting (rounds : Nat) : Program Unit :=
  .perform (.addCard { id := "bell", category := .item }) fun _ =>
  .perform (.addCard { id := "door", category := .item }) fun _ =>
  .perform (.subscribe ⟨0⟩ (.text "waiting")) fun _ => passing rounds

theorem asksOnly_passing (rounds : Nat) : (passing rounds).AsksOnly Operation.BringsFresh := by
  induction rounds with
  | zero => trivial
  | succ rounds ih =>
    refine ⟨trivial, fun outcome => ?_⟩
    rcases outcome with _ | answer
    · trivial
    · cases answer with
      | listener id => exact ⟨trivial, fun _ => ih⟩
      | _ => trivial

theorem asksOnly_waiting (rounds : Nat) : (waiting rounds).AsksOnly Operation.BringsFresh :=
  ⟨⟨rfl, rfl, rfl, rfl, rfl⟩, fun _ => ⟨⟨rfl, rfl, rfl, rfl, rfl⟩, fun _ =>
    ⟨trivial, fun _ => asksOnly_passing rounds⟩⟩⟩

theorem start_subscribe_of_contains (h : engine.forest.contains handle = true) (invoke : Invoker)
    (note : Data) :
    (perform invoke (.subscribe handle note)).start engine =
      some (.ok (.listener engine.nextListener), engine.subscribe handle note) := by
  rw [start_subscribe, if_pos h]

/-- Somebody comes to the door and goes again. -/
def passed (engine : Engine) : Engine :=
  (engine.subscribe ⟨1⟩ (.text "passing")).unsubscribe ⟨1⟩ engine.nextListener

/-- So many have passed. The one who waits has the first number, and nobody else is in the table. -/
structure Waits (rounds : Nat) (engine : Engine) : Prop where
  subscriptions : engine.subscriptions = rounds + 1
  bell : engine.audience ⟨0⟩ = [⟨0⟩]
  door : engine.audience ⟨1⟩ = []
  known : engine.forest.contains ⟨1⟩ = true
  table : ∀ entry ∈ engine.listeners, entry.1 = ⟨0⟩

section

variable {rounds : Nat} (h : Waits rounds engine)

include h

theorem Waits.isSubscribed_door (note : Data) :
    (engine.subscribe ⟨1⟩ note).isSubscribed ⟨1⟩ engine.nextListener = true := by
  rw [isSubscribed_iff, audience_subscribe h.known]
  simp

/-- Whoever passes takes the own number out of the table, and puts nothing in. -/
theorem Waits.mem_listeners_passed {entry : ListenerId × Data}
    (hmem : entry ∈ engine.passed.listeners) :
    entry ∈ engine.listeners ∧ entry.1 ≠ engine.nextListener := by
  unfold passed Engine.unsubscribe at hmem
  rw [if_pos (h.isSubscribed_door _), List.mem_filter] at hmem
  obtain ⟨hentry, hother⟩ := hmem
  have hne : entry.1 ≠ engine.nextListener := by simpa using hother
  rcases mem_listeners_subscribe hentry with ⟨hold, -⟩ | rfl
  · exact ⟨hold, hne⟩
  · exact absurd rfl hne

/-- The cards are as before, whatever number it was. -/
theorem Waits.passed : Waits (rounds + 1) engine.passed := by
  have hjoined := audience_subscribe h.known (.text "passing")
  have hleft := audience_unsubscribe (h.isSubscribed_door (.text "passing"))
  unfold Engine.passed
  refine ⟨?_, ?_, ?_, ?_, fun entry hmem => h.table entry (h.mem_listeners_passed hmem).1⟩
  · rw [subscriptions_unsubscribe]
    exact congrArg (· + 1) h.subscriptions
  · rw [hleft, if_neg (by simp), hjoined, if_neg (by simp)]
    exact h.bell
  · rw [hleft, if_pos rfl, hjoined, if_pos rfl, h.door]
    simp
  · rw [(sameEntries_unsubscribe _ _ _).forest.contains_eq]
    exact (Forest.contains_eq_of_size_eq (Forest.size_modify ..) _).trans h.known

theorem Waits.steps_passed :
    Relation.ReflTransGen (Step Operation.BringsFresh) engine engine.passed :=
  .tail (.single (.change (.subscribe trivial h.known))) (.change (.unsubscribe trivial))

variable {program : Program Unit} {first : Engine} {invoke : Invoker} {count : Nat}

theorem Waits.reaches_passed
    (hreaches : program.Reaches (perform invoke) first (passing (count + 1)) engine) :
    program.Reaches (perform invoke) first (passing count) engine.passed :=
  (hreaches.operation (start_subscribe_of_contains h.known invoke _)).operation rfl

/-- While the others pass, the one who waits goes on waiting. -/
theorem Waits.exists_passed
    (hreaches : program.Reaches (perform invoke) first (passing (count + 1)) engine) :
    ∃ after, program.Reaches (perform invoke) first (passing 1) after ∧
      Relation.ReflTransGen (Step Operation.BringsFresh) engine after ∧
      Waits (rounds + count) after := by
  induction count generalizing engine rounds with
  | zero => exact ⟨engine, hreaches, .refl, h⟩
  | succ count ih =>
    obtain ⟨after, hafter, hsteps, hwaits⟩ := ih h.passed (h.reaches_passed hreaches)
    have hcount : rounds + (count + 1) = rounds + 1 + count := by omega
    rw [hcount]
    exact ⟨after, hafter, h.steps_passed.trans hsteps, hwaits⟩

/-- Under the number of the one who waits, the table has nobody but the one who comes. -/
theorem Waits.listeners_subscribe (hnext : engine.nextListener = ⟨0⟩) (note : Data) :
    (engine.subscribe ⟨1⟩ note).listeners = [(⟨0⟩, note)] := by
  have hnobody : engine.listeners.filter (·.1 ≠ engine.nextListener) = [] := by
    rw [List.filter_eq_nil_iff]
    intro entry hmem
    rw [hnext]
    simpa using h.table entry hmem
  unfold Engine.subscribe
  rw [hnobody, hnext]
  rfl

end

/-- A listener subscribes to the bell and gets the first number. After so many have passed it still
waits, and one more is about to pass. -/
theorem exists_waiting (count : Nat) :
    ∃ opened joined engine : Engine, opened.Reachable ∧
      (perform (invoker moving 0) (.subscribe ⟨0⟩ (.text "waiting"))).start opened =
        some (.ok (.listener ⟨0⟩), joined) ∧
      Relation.ReflTransGen (Step Operation.BringsFresh) joined engine ∧ Waits count engine ∧
      engine.passed.Reachable := by
  let bell : Card := { id := "bell", category := .item }
  let door : Card := { id := "door", category := .item }
  let opened : Engine := ((new {}).addCard bell).addCard door
  have hopened : opened.forest.contains ⟨0⟩ = true := by decide +kernel
  have hjoin := start_subscribe_of_contains hopened (invoker moving 0) (.text "waiting")
  have hwaits : Waits 0 (opened.subscribe ⟨0⟩ (.text "waiting")) := by
    refine ⟨rfl, by decide +kernel, by decide +kernel, by decide +kernel, fun entry hmem => ?_⟩
    obtain rfl := List.mem_singleton.1 hmem
    rfl
  have hreachable {rest : Program Unit} {engine : Engine}
      (hreaches : (waiting (count + 1)).Reaches (perform (invoker moving 0)) (new {}) rest engine) :
      engine.Reachable :=
    .intro askOnly_moving (asksOnly_waiting _) makesFresh_of_none hreaches
  have hstart : (waiting (count + 1)).Reaches (perform (invoker moving 0)) (new {})
      (waiting (count + 1)) (new {}) := .start
  have hbegun := (hstart.operation rfl).operation rfl
  obtain ⟨engine, hreaches, hsteps, hafter⟩ := hwaits.exists_passed (hbegun.operation hjoin)
  rw [Nat.zero_add] at hafter
  exact ⟨opened, _, engine, hreachable hbegun, hjoin, hsteps, hafter,
    hreachable (hafter.reaches_passed hreaches)⟩

/-- When the numbers have started over, a listener can lose its own: then the one who got the same
number is called for its card, and when that one has gone nobody is, although the first is still
subscribed. -/
theorem listeners_can_lose_their_numbers :
    (¬ ∀ engine : Engine, engine.Reachable → ∀ raised, engine.HeardInOrder raised) ∧
      ¬ ∀ (engine after later : Engine) (invoke : Invoker) (handle : Handle) (note : Data)
        (id : ListenerId), engine.Reachable →
        (perform invoke (.subscribe handle note)).start engine =
          some (.ok (.listener id), after) →
        Relation.ReflTransGen (Step Operation.BringsFresh) after later →
        later.HeardAs id handle note := by
  obtain ⟨opened, joined, engine, hopened, hjoin, hsteps, hwaits, hpassed⟩ :=
    exists_waiting (UInt32.size - 1)
  have hnext : engine.nextListener = ⟨0⟩ := by
    unfold nextListener
    rw [hwaits.subscriptions]
    rfl
  constructor
  · intro hheard
    have hempty : engine.passed.listeners = [] := by
      rw [List.eq_nil_iff_forall_not_mem]
      intro entry hmem
      obtain ⟨hold, hother⟩ := hwaits.mem_listeners_passed hmem
      rw [hnext] at hother
      exact hother (hwaits.table entry hold)
    have hnobody : engine.passed.hearings ⟨⟨0⟩, .use⟩ = [] := by
      unfold hearings
      rw [hempty]
      simp
    have heveryone := (hheard engine.passed hpassed ⟨⟨0⟩, .use⟩).heard
    rw [hnobody, hwaits.passed.bell] at heveryone
    cases heveryone
  · intro hheard
    have hlast : Step Operation.BringsFresh engine (engine.subscribe ⟨1⟩ (.text "passing")) :=
      .change (.subscribe trivial hwaits.known)
    have hbell : (engine.subscribe ⟨1⟩ (.text "passing")).audience ⟨0⟩ = [⟨0⟩] := by
      rw [audience_subscribe hwaits.known, if_neg (by simp)]
      exact hwaits.bell
    have hcalled : (engine.subscribe ⟨1⟩ (.text "passing")).hearings ⟨⟨0⟩, .use⟩ =
        [(⟨0⟩, .text "passing", ⟨⟨0⟩, .use⟩)] := by
      unfold hearings
      rw [hbell, hwaits.listeners_subscribe hnext]
      rfl
    have hsubscribed : (engine.subscribe ⟨1⟩ (.text "passing")).isSubscribed ⟨0⟩ ⟨0⟩ = true := by
      rw [isSubscribed_iff, hbell]
      exact List.mem_singleton_self _
    have hwaiting := hheard opened joined _ _ ⟨0⟩ (.text "waiting") ⟨0⟩ hopened hjoin
      (hsteps.tail hlast) ⟨⟨0⟩, .use⟩
    obtain ⟨hmem, -⟩ := (hwaiting _).2 ⟨hsubscribed, rfl, rfl⟩
    rw [hcalled] at hmem
    simp at hmem

end CardRules.Engine
