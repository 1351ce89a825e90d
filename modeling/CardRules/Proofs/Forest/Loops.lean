import CardRules.Proofs.Forest.Lineage

/-!
Loops without a bound. A walk that nobody counts goes on for as long as there is a card on its stack,
or an owner above. In a forest that attaching, removing and detaching lead to, it ends all the same,
since it meets no card twice and does not come back to its start: after as many rounds as there are
cards at most, and with what the counted walk finds.
-/

namespace CardRules

/-! ## Loops -/

/-- What one round of a loop leads to: the loop goes on in another state, or it stops with a
result. -/
inductive Turn (σ ρ : Type) where
  | on (state : σ)
  | stop (result : ρ)

/-- A loop ends after a number of rounds with a result. Nothing bounds the number, and a loop that
goes on forever does not end at all. -/
inductive EndsAfter {σ ρ : Type} (round : σ → Turn σ ρ) : σ → Nat → ρ → Prop
  | stop {state : σ} {result : ρ} (stops : round state = .stop result) :
    EndsAfter round state 0 result
  | on {state later : σ} {rounds : Nat} {result : ρ} (turns : round state = .on later)
    (rest : EndsAfter round later rounds result) : EndsAfter round state (rounds + 1) result

section

variable {σ ρ : Type} {round : σ → Turn σ ρ} {state : σ} {rounds rounds' : Nat} {result result' : ρ}

/-- A loop ends in one way only. -/
theorem EndsAfter.unique (h : EndsAfter round state rounds result)
    (h' : EndsAfter round state rounds' result') : rounds' = rounds ∧ result' = result := by
  induction h generalizing rounds' with
  | stop hstops =>
    cases h' with
    | stop hstops' =>
      rw [hstops] at hstops'
      cases hstops'
      exact ⟨rfl, rfl⟩
    | on hturns' =>
      rw [hstops] at hturns'
      cases hturns'
  | on hturns _ ih =>
    cases h' with
    | stop hstops' =>
      rw [hturns] at hstops'
      cases hstops'
    | on hturns' hrest' =>
      rw [hturns] at hturns'
      cases hturns'
      obtain ⟨rfl, rfl⟩ := ih hrest'
      exact ⟨rfl, rfl⟩

theorem EndsAfter.iff (h : EndsAfter round state rounds result) (rounds' : Nat) (result' : ρ) :
    EndsAfter round state rounds' result' ↔ rounds' = rounds ∧ result' = result := by
  constructor
  · exact h.unique
  · rintro ⟨rfl, rfl⟩
    exact h

end

namespace Forest

variable {forest : Forest}

/-! ## Down -/

/-- What is stacked when a card at a depth is visited: its children, unless the depth has reached the
limit. -/
def stacked (forest : Forest) (limit : Option Nat) (handle : Handle) (depth : Nat) :
    List (Handle × Nat) :=
  if limit.all (depth < ·) then (forest.children handle).map (·, depth + 1) else []

/-- A round of the walk down. It takes the top card from the stack and lists it, and the walk is over
when the stack is empty. -/
def downRound (forest : Forest) (limit : Option Nat) :
    List (Handle × Nat) × List Handle → Turn (List (Handle × Nat) × List Handle) (List Handle)
  | ([], listed) => .stop listed
  | ((handle, depth) :: stack, listed) =>
    .on (forest.stacked limit handle depth ++ stack, listed ++ [handle])

/-- The walk down ends when all is listed that its stack stands for, one card each round. -/
theorem ends_down (hsound : forest.Sound) (limit : Option Nat) (stack : List (Handle × Nat))
    (listed : List Handle) :
    EndsAfter (forest.downRound limit) (stack, listed)
      (stack.flatMap (forest.entryWalk limit)).length
      (listed ++ stack.flatMap (forest.entryWalk limit)) := by
  induction hlength : (stack.flatMap (forest.entryWalk limit)).length
    generalizing stack listed with
  | zero =>
    cases stack with
    | nil =>
      rw [List.flatMap_nil, List.append_nil]
      exact .stop rfl
    | cons => cases hlength
  | succ rounds ih =>
    cases stack with
    | nil => cases hlength
    | cons entry rest =>
      obtain ⟨handle, depth⟩ := entry
      have hall := flatMap_entryWalk_cons hsound limit handle depth rest
      rw [hall, List.length_cons, Nat.succ_inj] at hlength
      rw [hall, List.append_cons]
      exact .on rfl (ih _ _ hlength)

theorem flatMap_stacked (hsound : forest.Sound) (limit : Option Nat) (root : Handle) :
    (forest.stacked limit root 0).flatMap (forest.entryWalk limit) =
      forest.descendants root limit := by
  have hlevels : forest.levelsLeft limit 0 = limit.getD forest.size := by cases limit <;> rfl
  rw [descendants_eq_below hsound, ← hlevels]
  exact flatMap_entryWalk_children hsound limit root 0

/-- The walk down from a card ends with the descendants that the counted walk finds, after as many
rounds as these are. -/
theorem ends_descendants (hsound : forest.Sound) (root : Handle) (limit : Option Nat) :
    EndsAfter (forest.downRound limit) (forest.stacked limit root 0, [])
      (forest.descendants root limit).length (forest.descendants root limit) := by
  have hends := ends_down hsound limit (forest.stacked limit root 0) []
  rwa [flatMap_stacked hsound, List.nil_append] at hends

theorem length_descendants_le (hsound : forest.Sound) (root : Handle) (limit : Option Nat) :
    (forest.descendants root limit).length ≤ forest.size := by
  rw [descendants_eq_below hsound]
  exact length_below_le hsound _ root

/-- The counted walk down finds no more if it is given more steps than there are cards. -/
theorem visit_stacked (hsound : forest.Sound) {steps : Nat} (hsteps : forest.size ≤ steps)
    (root : Handle) (limit : Option Nat) :
    forest.visit limit steps (forest.stacked limit root 0) = forest.descendants root limit := by
  have hlength := length_descendants_le hsound root limit
  rw [visit_eq hsound]
  · exact flatMap_stacked hsound limit root
  · rw [flatMap_stacked hsound]
    omega

/-! ## Up -/

/-- Somebody who asks for the owners of a card, one after the other: what is kept in mind, and
whether the next owner is wanted. -/
structure Consumer (α ρ : Type) where
  /-- What one more owner leads to. -/
  take : α → Handle → Turn α ρ
  /-- What it comes to where there is no owner left. -/
  finish : α → ρ

namespace Consumer

variable {α ρ : Type}

/-- What comes of a list of owners, and those of them that were asked for. -/
def consume (consumer : Consumer α ρ) : α → List Handle → ρ × List Handle
  | state, [] => (consumer.finish state, [])
  | state, handle :: rest =>
    match consumer.take state handle with
    | .on state =>
      let (result, met) := consume consumer state rest
      (result, handle :: met)
    | .stop result => (result, [handle])

theorem consume_beginning (consumer : Consumer α ρ) (state : α) (list : List Handle) :
    (consumer.consume state list).2 <+: list := by
  induction list generalizing state with
  | nil => exact List.prefix_rfl
  | cons handle rest ih =>
    unfold consume
    split
    next state _ =>
      rw [List.cons_prefix_cons]
      exact ⟨rfl, ih state⟩
    next => simp

/-- Lists the owners. -/
def collect : Consumer (List Handle) (List Handle) where
  take listed handle := .on (listed ++ [handle])
  finish listed := listed

/-- Looks for a card and stops where it is found. -/
def search (wanted : Handle) : Consumer Unit Bool where
  take _ handle := if handle = wanted then .stop true else .on ()
  finish _ := false

/-- Keeps the last owner in mind. -/
def last : Consumer Handle Handle where
  take _ handle := .on handle
  finish handle := handle

theorem consume_collect (listed list : List Handle) :
    (collect.consume listed list).1 = listed ++ list := by
  induction list generalizing listed with
  | nil =>
    rw [List.append_nil]
    rfl
  | cons handle rest ih =>
    have hrest := ih (listed ++ [handle])
    rw [List.append_assoc] at hrest
    exact hrest

theorem consume_search (wanted : Handle) (list : List Handle) :
    ((search wanted).consume () list).1 = decide (wanted ∈ list) := by
  induction list with
  | nil => rfl
  | cons handle rest ih =>
    unfold consume
    by_cases h : handle = wanted
    · simp [search, h]
    · have hrest : wanted ∈ handle :: rest ↔ wanted ∈ rest := by simp [Ne.symm h]
      have htake : (search wanted).take () handle = .on () := if_neg h
      simp only [htake, hrest]
      exact ih

theorem consume_last (handle : Handle) (list : List Handle) :
    (last.consume handle list).1 = list.getLastD handle := by
  induction list generalizing handle with
  | nil => rfl
  | cons next rest ih =>
    rw [List.getLastD_cons]
    exact ih next

end Consumer

section

variable {α ρ : Type}

/-- A round of the walk up. It is over where there is no owner, or when no more owners are wanted. -/
def upRound (forest : Forest) (consumer : Consumer α ρ) :
    Option Handle × List Handle × α → Turn (Option Handle × List Handle × α) (ρ × List Handle)
  | (none, met, state) => .stop (consumer.finish state, met)
  | (some current, met, state) =>
    match consumer.take state current with
    | .on state => .on (forest.owner? current, met ++ [current], state)
    | .stop result => .stop (result, met ++ [current])

/-- The walk up ends for every consumer as the list of ancestors ends for it. -/
theorem ends_up (hsound : forest.Sound) (consumer : Consumer α ρ) (state : α) (met : List Handle)
    (handle : Handle) :
    ∃ rounds, rounds ≤ (consumer.consume state (forest.ancestors handle)).2.length ∧
      EndsAfter (forest.upRound consumer) (forest.owner? handle, met, state) rounds
        ((consumer.consume state (forest.ancestors handle)).1,
          met ++ (consumer.consume state (forest.ancestors handle)).2) := by
  induction handle using Sound.climbing hsound generalizing state met with
  | top handle howner =>
    rw [howner, ancestors_of_owner?_eq_none howner]
    refine ⟨0, Nat.zero_le _, .stop ?_⟩
    rw [upRound, Consumer.consume, List.append_nil]
  | up handle owner howner ih =>
    rw [howner, ancestors_of_owner? hsound howner]
    unfold Consumer.consume
    cases htake : consumer.take state owner with
    | on later =>
      obtain ⟨rounds, hrounds, hends⟩ := ih later (met ++ [owner])
      have hturn : forest.upRound consumer (some owner, met, state) =
          .on (forest.owner? owner, met ++ [owner], later) := by
        simp only [upRound, htake]
      refine ⟨rounds + 1, Nat.succ_le_succ hrounds, .on hturn ?_⟩
      simpa using hends
    | stop result =>
      refine ⟨0, Nat.zero_le _, .stop ?_⟩
      simp only [upRound, htake]

/-- The walk up from a card ends with a result. The owners that it met are different cards, the card
itself is none of them, and there are no more of them than cards; they are the nearest ones. It ends
in no other way. -/
def WalksUp (forest : Forest) (consumer : Consumer α ρ) (state : α) (handle : Handle) (result : ρ) :
    Prop :=
  ∃ rounds met, rounds ≤ met.length ∧ met.length ≤ forest.size ∧ met.Nodup ∧ handle ∉ met ∧
    met <+: forest.ancestors handle ∧
    ∀ rounds' result', EndsAfter (forest.upRound consumer) (forest.owner? handle, [], state) rounds'
      result' ↔ rounds' = rounds ∧ result' = (result, met)

theorem walksUp (hsound : forest.Sound) (consumer : Consumer α ρ) (state : α) (handle : Handle) :
    forest.WalksUp consumer state handle
      (consumer.consume state (forest.ancestors handle)).1 := by
  obtain ⟨rounds, hrounds, hends⟩ := ends_up hsound consumer state [] handle
  rw [List.nil_append] at hends
  have hnearest := consumer.consume_beginning state (forest.ancestors handle)
  have hlength := length_ownersFrom_le hsound forest.size handle
  refine ⟨rounds, _, hrounds, Nat.le_trans hnearest.length_le hlength, ?_, fun hmem => ?_, hnearest,
    hends.iff⟩
  · exact hnearest.sublist.nodup (nodup_ancestors hsound handle)
  · exact not_mem_ancestors_self hsound handle (hnearest.subset hmem)

end

/-- The counted walk up finds no more if it is given more steps than there are cards. -/
theorem ownersFrom_eq_ancestors (hsound : forest.Sound) {steps : Nat} (hsteps : forest.size ≤ steps)
    (handle : Handle) : forest.ownersFrom steps (forest.owner? handle) = forest.ancestors handle := by
  obtain ⟨more, rfl⟩ := Nat.exists_eq_add_of_le hsteps
  unfold ancestors
  rw [← take_ownersFrom forest forest.size more, List.take_of_length_le]
  exact length_ownersFrom_le hsound _ handle

/-! ## The law -/

/-- The walks need no bound, in every forest that attaching, removing and detaching lead to. The walk
down from a card ends after as many rounds as it lists cards, in no other way, and what it lists is
what the counted walk lists: different cards, no more of them than there are, and not the card where
it starts. The walk up ends as well, whoever asks for the owners: it meets different cards, no more
of them than there are, and not the card where it starts. So it is for the list of all owners, for
the search of a card among them, as it is made before a card is attached, and for the last of them,
which is the root. And no walk finds more if it is given more steps than there are cards. -/
theorem walks_end_within_the_forest (h : forest.Planted) :
    (∀ root limit,
      (∀ rounds listed,
        EndsAfter (forest.downRound limit) (forest.stacked limit root 0, []) rounds listed ↔
          rounds = (forest.descendants root limit).length ∧
            listed = forest.descendants root limit) ∧
      (forest.descendants root limit).length ≤ forest.size ∧
      (forest.descendants root limit).Nodup ∧ root ∉ forest.descendants root limit) ∧
    (∀ {α ρ : Type} (consumer : Consumer α ρ) (state : α) (handle : Handle),
      forest.WalksUp consumer state handle
        (consumer.consume state (forest.ancestors handle)).1) ∧
    (∀ handle, forest.WalksUp Consumer.collect [] handle (forest.ancestors handle)) ∧
    (∀ handle wanted, forest.WalksUp (Consumer.search wanted) () handle
      (decide (wanted ∈ forest.ancestors handle))) ∧
    (∀ handle, forest.WalksUp Consumer.last handle handle (forest.rootOf handle)) ∧
    ∀ steps, forest.size ≤ steps →
      (∀ root limit, forest.visit limit steps (forest.stacked limit root 0) =
        forest.descendants root limit) ∧
      ∀ handle, forest.ownersFrom steps (forest.owner? handle) = forest.ancestors handle := by
  have hsound := h.sound
  refine ⟨fun root limit => ⟨?_, ?_, ?_, ?_⟩, fun consumer => walksUp hsound consumer,
    fun handle => ?_, fun handle wanted => ?_, fun handle => ?_, fun steps hsteps => ⟨?_, ?_⟩⟩
  · exact (ends_descendants hsound root limit).iff
  · exact length_descendants_le hsound root limit
  · exact nodup_descendants hsound root limit
  · exact not_mem_descendants_self hsound root limit
  · have hwalk := walksUp hsound Consumer.collect [] handle
    rwa [Consumer.consume_collect, List.nil_append] at hwalk
  · have hwalk := walksUp hsound (Consumer.search wanted) () handle
    rwa [Consumer.consume_search] at hwalk
  · have hwalk := walksUp hsound Consumer.last handle handle
    rwa [Consumer.consume_last] at hwalk
  · exact visit_stacked hsound hsteps
  · exact ownersFrom_eq_ancestors hsound hsteps

/-- From the trunk the walk down ends after three rounds, and the search of the trunk above the twig
ends with success. -/
theorem orchards_are_walked_without_bound :
    ∃ forest : Forest, forest.Planted ∧
      EndsAfter (forest.downRound none) (forest.stacked none ⟨0⟩ 0, []) 3 [⟨1⟩, ⟨2⟩, ⟨3⟩] ∧
      forest.WalksUp (Consumer.search ⟨0⟩) () ⟨3⟩ true := by
  have hfacts : orchard.map (fun forest => (forest.descendants ⟨0⟩ none, forest.ancestors ⟨3⟩)) =
      some ([⟨1⟩, ⟨2⟩, ⟨3⟩], [⟨2⟩, ⟨0⟩]) := by
    decide +kernel
  obtain ⟨forest, hforest, hvalues⟩ := Option.map_eq_some_iff.1 hfacts
  obtain ⟨hdown, hup⟩ := Prod.mk.inj hvalues
  have hplanted := planted_of_orchard hforest
  obtain ⟨hends, -, -, hsearch, -⟩ := walks_end_within_the_forest hplanted
  refine ⟨forest, hplanted, ?_, ?_⟩
  · rw [(hends ⟨0⟩ none).1, hdown]
    exact ⟨rfl, rfl⟩
  · have hfound := hsearch ⟨3⟩ ⟨0⟩
    rwa [hup] at hfound

end Forest

end CardRules
