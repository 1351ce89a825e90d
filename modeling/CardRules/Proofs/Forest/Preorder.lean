import CardRules.Proofs.Forest.Ancestry
import Mathlib.Data.List.Flatten
import Mathlib.Data.List.Nodup

/-!
The walk down through children. It finds none but cards below the card where it starts. In a sound
forest the walk with a stack lists what a recursion over children lists: each child in order, and
right after it what lies below it, one level less deep. What is listed are the cards from which the
walk up comes by (`mem_below_iff`), none of them twice.
-/

namespace CardRules.Forest

variable {forest : Forest}

/-! ## Below a card -/

section

variable {within : Set Handle} {handle : Handle}

/-- The children of each card of a set are in the set. -/
def HoldsChildren (forest : Forest) (within : Set Handle) : Prop :=
  ∀ parent ∈ within, ∀ child ∈ forest.children parent, child ∈ within

section

variable (h : forest.HoldsChildren within)

include h

/-- When a card of a stack is visited, its children come before the rest of the stack. -/
theorem HoldsChildren.mem_of_mem_stack {limit : Option Nat} {depth : Nat}
    {stack : List (Handle × Nat)} (hstack : ∀ place ∈ (handle, depth) :: stack, place.1 ∈ within)
    {place : Handle × Nat}
    (hplace : place ∈ (if limit.all (depth < ·) then
      (forest.children handle).map (·, depth + 1) else []) ++ stack) : place.1 ∈ within := by
  rcases List.mem_append.1 hplace with hbelow | hrest
  · split at hbelow
    · obtain ⟨child, hchild, rfl⟩ := List.mem_map.1 hbelow
      exact h handle (hstack (handle, depth) List.mem_cons_self) child hchild
    · simp at hbelow
  · exact hstack place (List.mem_cons_of_mem _ hrest)

theorem HoldsChildren.mem_of_mem_visit {limit : Option Nat} {steps : Nat}
    {stack : List (Handle × Nat)} (hstack : ∀ place ∈ stack, place.1 ∈ within)
    (hmem : handle ∈ forest.visit limit steps stack) : handle ∈ within := by
  induction steps generalizing stack with
  | zero => simp [visit] at hmem
  | succ steps ih =>
    cases stack with
    | nil => simp [visit] at hmem
    | cons top stack =>
      simp only [visit, List.mem_cons] at hmem
      rcases hmem with rfl | hmem
      · exact hstack top List.mem_cons_self
      · exact ih (fun _ hplace => h.mem_of_mem_stack hstack hplace) hmem

/-- What the walk down from a card finds is in every such set that has the children of the card,
whether or not it has the card itself. -/
theorem HoldsChildren.mem_of_mem_descendants {limit : Option Nat} {root : Handle}
    (hroot : ∀ child ∈ forest.children root, child ∈ within)
    (hmem : handle ∈ forest.descendants root limit) : handle ∈ within := by
  unfold descendants at hmem
  split at hmem
  · simp at hmem
  · refine h.mem_of_mem_visit (fun place hplace => ?_) hmem
    obtain ⟨child, hchild, rfl⟩ := List.mem_map.1 hplace
    exact hroot child hchild

end

/-- A card lies somewhere below another: it is a child of it, a child of such a child, and so on. -/
def Descends (forest : Forest) (low high : Handle) : Prop :=
  Relation.TransGen (fun child parent => child ∈ forest.children parent) low high

theorem holdsChildren_descends (forest : Forest) (root : Handle) :
    forest.HoldsChildren {low | forest.Descends low root} :=
  fun _ hpath _ hchild => .head hchild hpath

theorem descends_of_mem_descendants {limit : Option Nat} {low root : Handle}
    (h : low ∈ forest.descendants root limit) : forest.Descends low root :=
  (holdsChildren_descends forest root).mem_of_mem_descendants (fun _ hchild => .single hchild) h

theorem HoldsChildren.mem_of_descends (h : forest.HoldsChildren within) {low root : Handle}
    (hin : root ∈ within) (hpath : forest.Descends low root) : low ∈ within := by
  -- The path is taken from above, where it starts within.
  induction hpath using Relation.TransGen.head_induction_on with
  | single hchild => exact h root hin _ hchild
  | head hchild _ ih => exact h _ ih _ hchild

/-- In a sound forest the paths down are the paths up. -/
theorem descends_iff_transGen (hsound : forest.Sound) {low root : Handle} :
    forest.Descends low root ↔ Relation.TransGen forest.Under low root := by
  constructor
  · exact Relation.TransGen.mono (fun _ _ => hsound.mem_children_iff.1) low root
  · exact Relation.TransGen.mono (fun _ _ => hsound.mem_children_iff.2) low root

end

/-! ## By recursion -/

/-- The cards at most so many levels below a card: each child in order, followed at once by the
cards below it. -/
def below (forest : Forest) : Nat → Handle → List Handle
  | 0, _ => []
  | levels + 1, handle =>
    (forest.children handle).flatMap fun child => child :: forest.below levels child

/-- With more levels more is listed, and in the same order. -/
theorem below_sublist_below_succ (forest : Forest) (levels : Nat) (handle : Handle) :
    (forest.below levels handle).Sublist (forest.below (levels + 1) handle) := by
  induction levels generalizing handle with
  | zero => simp [below]
  | succ levels ih =>
    rw [below, below]
    apply List.Sublist.flatMap_right
    intro child _
    exact (ih child).cons_cons child

section

variable (hsound : forest.Sound)

include hsound

/-! ## Down and up -/

/-- The recursion goes down from above; what it lists can be told from below as well, by the owner
of the card. -/
theorem mem_below_succ_iff {levels : Nat} {handle low : Handle} :
    low ∈ forest.below (levels + 1) handle ↔
      ∃ owner, forest.owner? low = some owner ∧
        (owner = handle ∨ owner ∈ forest.below levels handle) := by
  induction levels generalizing handle with
  | zero =>
    rw [below]
    simp [below, hsound.mem_children_iff]
  | succ levels ih =>
    rw [below, List.mem_flatMap]
    constructor
    · rintro ⟨child, hchild, hmem⟩
      rcases List.mem_cons.1 hmem with rfl | hmem
      · exact ⟨handle, hsound.mem_children_iff.1 hchild, .inl rfl⟩
      · obtain ⟨owner, howner, hplace⟩ := ih.1 hmem
        refine ⟨owner, howner, .inr ?_⟩
        rw [below, List.mem_flatMap]
        exact ⟨child, hchild, List.mem_cons.2 hplace⟩
    · rintro ⟨owner, howner, rfl | hmem⟩
      · exact ⟨low, hsound.mem_children_iff.2 howner, List.mem_cons_self⟩
      · rw [below, List.mem_flatMap] at hmem
        obtain ⟨child, hchild, hplace⟩ := hmem
        refine ⟨child, hchild, List.mem_cons_of_mem _ ?_⟩
        exact ih.2 ⟨owner, howner, List.mem_cons.1 hplace⟩

/-- So many levels below a card lie the cards that have it among the first so many ancestors. -/
theorem mem_below_iff {levels : Nat} {handle low : Handle} :
    low ∈ forest.below levels handle ↔ handle ∈ (forest.ancestors low).take levels := by
  induction levels generalizing low with
  | zero => simp [below]
  | succ levels ih =>
    rw [mem_below_succ_iff hsound]
    cases howner : forest.owner? low with
    | none => simp [ancestors_of_owner?_eq_none howner]
    | some owner =>
      rw [ancestors_of_owner? hsound howner, List.take_succ_cons, List.mem_cons, ← ih]
      simp [eq_comm]

theorem mem_ancestors_of_mem_below {levels : Nat} {handle low : Handle}
    (h : low ∈ forest.below levels handle) : handle ∈ forest.ancestors low :=
  List.mem_of_mem_take ((mem_below_iff hsound).1 h)

/-- Below two children of one card lie different cards. -/
theorem eq_of_mem_below {levels : Nat} {handle child other low : Handle}
    (hchild : forest.owner? child = some handle) (hother : forest.owner? other = some handle)
    (h : low ∈ child :: forest.below levels child)
    (h' : low ∈ other :: forest.below levels other) : child = other := by
  have hline : ∀ {top : Handle}, low ∈ top :: forest.below levels top →
      Relation.ReflTransGen forest.Under low top := by
    intro top hmem
    rcases List.mem_cons.1 hmem with rfl | hmem
    · exact .refl
    · have habove := mem_ancestors_of_mem_below hsound hmem
      exact ((mem_ancestors_iff hsound).1 habove).to_reflTransGen
  -- Two cards on the way up from one card: the way goes from one of them to the other, through the
  -- owner that they have in common.
  have hcycle : ∀ {lower upper : Handle}, forest.owner? lower = some handle →
      forest.owner? upper = some handle → Relation.ReflTransGen forest.Under lower upper →
      lower = upper := by
    intro lower upper hlower hupper hpath
    rcases Relation.ReflTransGen.cases_head hpath with heq | ⟨owner, hfirst, hrest⟩
    · exact heq
    · obtain rfl : handle = owner := Option.some.inj (hlower.symm.trans hfirst)
      exact absurd (Relation.TransGen.tail' hrest hupper) (hsound.acyclic handle)
  have hunique : Relator.RightUnique forest.Under := by
    intro low first second hfirst hsecond
    exact Option.some.inj (hfirst.symm.trans hsecond)
  rcases Relation.ReflTransGen.total_of_right_unique hunique (hline h) (hline h') with hpath | hpath
  · exact hcycle hchild hother hpath
  · exact (hcycle hother hchild hpath).symm

theorem nodup_below (levels : Nat) (handle : Handle) : (forest.below levels handle).Nodup := by
  induction levels generalizing handle with
  | zero => exact List.nodup_nil
  | succ levels ih =>
    rw [below, List.nodup_flatMap]
    constructor
    · intro child _
      refine List.nodup_cons.2 ⟨fun hmem => ?_, ih child⟩
      exact not_mem_ancestors_self hsound child (mem_ancestors_of_mem_below hsound hmem)
    · -- A card below two children would make them one.
      refine (hsound.nodup_children handle).imp_of_mem ?_
      intro child other hchild hother hne
      rw [Function.onFun_apply, List.disjoint_left]
      intro low hmem hmem'
      apply hne
      exact eq_of_mem_below hsound (hsound.mem_children_iff.1 hchild)
        (hsound.mem_children_iff.1 hother) hmem hmem'

theorem length_below_le (levels : Nat) (handle : Handle) :
    (forest.below levels handle).length ≤ forest.size := by
  apply length_le_size (nodup_below hsound levels handle)
  intro low hmem
  have habove := (mem_ancestors_iff hsound).1 (mem_ancestors_of_mem_below hsound hmem)
  obtain ⟨owner, howner, -⟩ := Relation.TransGen.head'_iff.1 habove
  exact contains_of_owner? howner

/-- A card that has all the others above it has no children. -/
theorem children_eq_nil_of_size_le {handle : Handle} (h : forest.size ≤ forest.depth handle + 1) :
    forest.children handle = [] := by
  refine List.eq_nil_iff_forall_not_mem.2 fun child hchild => ?_
  have howner := hsound.mem_children_iff.1 hchild
  have hshort := depth_lt_size hsound (contains_of_owner? howner)
  rw [depth_of_owner? hsound howner] at hshort
  omega

/-- As many levels as there are cards are enough, less those above the start. -/
theorem below_add_eq {levels : Nat} {handle : Handle}
    (h : forest.size ≤ levels + forest.depth handle + 1) (more : Nat) :
    forest.below (levels + more) handle = forest.below levels handle := by
  induction levels generalizing handle with
  | zero =>
    have hnone : forest.children handle = [] := by
      apply children_eq_nil_of_size_le hsound
      omega
    cases more <;> simp [below, hnone]
  | succ levels ih =>
    rw [Nat.add_right_comm, below, below]
    apply List.flatMap_congr
    intro child hchild
    rw [ih]
    rw [depth_of_owner? hsound (hsound.mem_children_iff.1 hchild)]
    omega

theorem below_eq_below_size {levels : Nat} {handle : Handle}
    (h : forest.size ≤ levels + forest.depth handle + 1) :
    forest.below levels handle = forest.below forest.size handle := by
  have hall : forest.size ≤ forest.size + forest.depth handle + 1 := by omega
  rw [← below_add_eq hsound h forest.size, Nat.add_comm, below_add_eq hsound hall]

/-! ## With a stack -/

/-- How many levels are left below a depth, if there is a limit; the size of the forest is none. -/
def levelsLeft (forest : Forest) (limit : Option Nat) (depth : Nat) : Nat :=
  match limit with
  | some most => most - depth
  | none => forest.size

/-- What a stacked card stands for: the card, and what lies below it within the limit. -/
def entryWalk (forest : Forest) (limit : Option Nat) (entry : Handle × Nat) : List Handle :=
  entry.1 :: forest.below (forest.levelsLeft limit entry.2) entry.1

/-- The children of a card are stacked together if there is a level left for them. -/
theorem flatMap_entryWalk_children (limit : Option Nat) (handle : Handle) (depth : Nat) :
    (if limit.all (depth < ·) then (forest.children handle).map (·, depth + 1) else []).flatMap
        (forest.entryWalk limit) =
      forest.below (forest.levelsLeft limit depth) handle := by
  cases limit with
  | none =>
    have hsame : forest.below (forest.size + 1) handle = forest.below forest.size handle := by
      apply below_add_eq hsound
      omega
    simp only [levelsLeft, ← hsame, below, Option.all_none, if_true, List.flatMap_map]
    rfl
  | some most =>
    by_cases hless : depth < most
    · obtain ⟨levels, hlevels⟩ : ∃ levels, most - depth = levels + 1 := ⟨most - depth - 1, by omega⟩
      have hleft : most - (depth + 1) = levels := by omega
      simp only [levelsLeft, Option.all_some, hless, decide_true, if_true, List.flatMap_map,
        hlevels, below]
      apply List.flatMap_congr
      intro child _
      simp only [entryWalk, levelsLeft, hleft]
    · have hnone : most - depth = 0 := by omega
      simp [levelsLeft, hless, hnone, below]

/-- A card is listed, and its children come before the rest of the stack. -/
theorem flatMap_entryWalk_cons (limit : Option Nat) (handle : Handle) (depth : Nat)
    (rest : List (Handle × Nat)) :
    ((handle, depth) :: rest).flatMap (forest.entryWalk limit) =
      handle :: ((if limit.all (depth < ·) then (forest.children handle).map (·, depth + 1)
        else []) ++ rest).flatMap (forest.entryWalk limit) := by
  rw [List.flatMap_cons, List.flatMap_append, flatMap_entryWalk_children hsound]
  rfl

/-- With enough steps, the walk lists what the cards on its stack stand for. -/
theorem visit_eq {limit : Option Nat} {steps : Nat} {stack : List (Handle × Nat)}
    (h : (stack.flatMap (forest.entryWalk limit)).length ≤ steps) :
    forest.visit limit steps stack = stack.flatMap (forest.entryWalk limit) := by
  induction steps generalizing stack with
  | zero =>
    rw [Nat.le_zero, List.length_eq_zero_iff] at h
    rw [h, visit]
  | succ steps ih =>
    cases stack with
    | nil => rfl
    | cons entry rest =>
      obtain ⟨handle, depth⟩ := entry
      have hall := flatMap_entryWalk_cons hsound limit handle depth rest
      rw [hall, List.length_cons, Nat.add_le_add_iff_right] at h
      rw [hall, visit, ih h]

/-- The walk with a stack lists the same as the recursion. -/
theorem descendants_eq_below (root : Handle) (limit : Option Nat) :
    forest.descendants root limit = forest.below (limit.getD forest.size) root := by
  unfold descendants
  split
  next hzero => simp [hzero, below]
  next hpositive =>
    have hlimit : limit.all (0 < ·) = true := by
      cases limit with
      | none => rfl
      | some most =>
        have hne : most ≠ 0 := fun heq => hpositive (by rw [heq])
        simpa using Nat.pos_of_ne_zero hne
    have hstacked := flatMap_entryWalk_children hsound limit root 0
    rw [hlimit, if_pos rfl] at hstacked
    have hleft : forest.levelsLeft limit 0 = limit.getD forest.size := by
      cases limit <;> rfl
    rw [visit_eq hsound]
    · rw [hstacked, hleft]
    · rw [hstacked]
      exact length_below_le hsound _ root

/-! ## The equation of the recursion -/

/-- A walk that is defined by recursion: nothing is listed if no level is left, and otherwise each
child in order, followed at once by the walk from there with one level less. -/
def IsPreorder (forest : Forest) (walk : Handle → Option Nat → List Handle) : Prop :=
  ∀ root limit, walk root limit =
    if limit = some 0 then []
    else (forest.children root).flatMap fun child => child :: walk child (limit.map (· - 1))

theorem isPreorder_descendants : forest.IsPreorder forest.descendants := by
  intro root limit
  simp only [descendants_eq_below hsound]
  split
  next hzero => simp [hzero, below]
  next hpositive =>
    cases limit with
    | none =>
      have hall : forest.size ≤ forest.size + forest.depth root + 1 := by omega
      rw [Option.getD_none, ← below_add_eq hsound hall 1]
      rfl
    | some levels =>
      cases levels with
      | zero => exact absurd rfl hpositive
      | succ levels => rfl

/-- The equation has no other solution: even where there is no limit, the levels of a sound forest
come to an end. -/
theorem IsPreorder.eq_descendants {walk : Handle → Option Nat → List Handle}
    (h : forest.IsPreorder walk) : walk = forest.descendants := by
  have hlimited : ∀ levels root, walk root (some levels) = forest.below levels root := by
    intro levels
    induction levels with
    | zero => intro root; simp [h root, below]
    | succ levels ih =>
      intro root
      rw [h root, if_neg (by simp), below]
      apply List.flatMap_congr
      intro child _
      simp [ih]
  have hfree : ∀ levels root, forest.size ≤ levels + forest.depth root + 1 →
      walk root none = forest.below levels root := by
    intro levels
    induction levels with
    | zero =>
      intro root hdeep
      rw [h root, children_eq_nil_of_size_le hsound (by omega)]
      simp [below]
    | succ levels ih =>
      intro root hdeep
      rw [h root, if_neg (by simp), below]
      apply List.flatMap_congr
      intro child hchild
      have hdepth := depth_of_owner? hsound (hsound.mem_children_iff.1 hchild)
      rw [← ih child (by omega)]
      rfl
  funext root limit
  rw [descendants_eq_below hsound]
  cases limit with
  | none => exact hfree forest.size root (by omega)
  | some levels => exact hlimited levels root

end

end CardRules.Forest
