import CardRules.Proofs.Forest.Soundness
import Mathlib.Data.List.Perm.Subperm

/-!
The walk up through owners. In a sound forest it meets no card twice, so as many steps as there are
cards are enough: `mem_ancestors_iff` says that the walk finds exactly the cards above.
-/

namespace CardRules.Forest

variable {forest : Forest}

/-- A shorter walk is the beginning of a longer one. -/
theorem take_ownersFrom (forest : Forest) (steps more : Nat) (start : Option Handle) :
    (forest.ownersFrom (steps + more) start).take steps = forest.ownersFrom steps start := by
  induction steps generalizing start with
  | zero => rw [List.take_zero, ownersFrom]
  | succ steps ih =>
    rw [Nat.add_right_comm]
    cases start with
    | none => rfl
    | some handle =>
      simp only [ownersFrom, List.take_succ_cons]
      rw [ih]

/-- What the walk meets lies above the card where it starts. -/
theorem transGen_of_mem_ownersFrom {steps : Nat} {handle above : Handle}
    (h : above ∈ forest.ownersFrom steps (forest.owner? handle)) :
    Relation.TransGen forest.Under handle above := by
  induction steps generalizing handle with
  | zero => simp [ownersFrom] at h
  | succ steps ih =>
    cases howner : forest.owner? handle with
    | none =>
      rw [howner] at h
      simp [ownersFrom] at h
    | some owner =>
      rw [howner, ownersFrom, List.mem_cons] at h
      rcases h with rfl | h
      · exact .single howner
      · exact .head howner (ih h)

/-- Whatever lies above a card is met by a walk that is long enough. -/
theorem exists_mem_ownersFrom {handle above : Handle}
    (h : Relation.TransGen forest.Under handle above) :
    ∃ steps, above ∈ forest.ownersFrom steps (forest.owner? handle) := by
  -- The path is taken from its lower end, where the walk starts.
  induction h using Relation.TransGen.head_induction_on with
  | single howner =>
    refine ⟨1, ?_⟩
    rw [howner, ownersFrom]
    exact List.mem_cons_self
  | head howner _ ih =>
    obtain ⟨steps, hmem⟩ := ih
    refine ⟨steps + 1, ?_⟩
    rw [howner, ownersFrom]
    exact List.mem_cons_of_mem _ hmem

/-- Cards that are listed without repetition are no more than there are. -/
theorem length_le_size {list : List Handle} (hnodup : list.Nodup)
    (hknown : ∀ handle ∈ list, forest.contains handle = true) : list.length ≤ forest.size := by
  have hsubset : list ⊆ forest.handles := by
    intro handle hmem
    have hless := hknown handle hmem
    rw [contains, decide_eq_true_iff] at hless
    exact List.mem_map.2 ⟨handle.index, List.mem_range.2 hless, rfl⟩
  have hlength := (List.subperm_of_subset hnodup hsubset).length_le
  simpa [handles] using hlength

/-- How many cards lie above a card. -/
def depth (forest : Forest) (handle : Handle) : Nat := (forest.ancestors handle).length

theorem ancestors_of_owner?_eq_none {handle : Handle} (h : forest.owner? handle = none) :
    forest.ancestors handle = [] := by
  unfold ancestors
  rw [h]
  cases forest.size <;> rfl

section

variable (hsound : forest.Sound)

include hsound

theorem nodup_ownersFrom (steps : Nat) (start : Option Handle) :
    (forest.ownersFrom steps start).Nodup := by
  induction steps generalizing start with
  | zero => exact List.nodup_nil
  | succ steps ih =>
    cases start with
    | none => exact List.nodup_nil
    | some handle =>
      -- A card met again would lie above itself.
      refine List.nodup_cons.2 ⟨fun hmem => ?_, ih _⟩
      exact hsound.acyclic handle (transGen_of_mem_ownersFrom hmem)

theorem contains_of_mem_ownersFrom {steps : Nat} {handle above : Handle}
    (h : above ∈ forest.ownersFrom steps (forest.owner? handle)) :
    forest.contains above = true := by
  obtain ⟨_, -, hlast⟩ := Relation.TransGen.tail'_iff.1 (transGen_of_mem_ownersFrom h)
  exact hsound.contains_owner hlast

/-- No walk is longer than the forest is large. -/
theorem length_ownersFrom_le (steps : Nat) (handle : Handle) :
    (forest.ownersFrom steps (forest.owner? handle)).length ≤ forest.size := by
  apply length_le_size (nodup_ownersFrom hsound _ _)
  intro above hmem
  exact contains_of_mem_ownersFrom hsound hmem

/-- A walk of any length is contained in the list of ancestors. -/
theorem ownersFrom_subset_ancestors (steps : Nat) (handle : Handle) :
    forest.ownersFrom steps (forest.owner? handle) ⊆ forest.ancestors handle := by
  intro above hmem
  -- Both walks are beginnings of one that takes the steps of both, and it ends within the forest.
  rw [← take_ownersFrom forest steps forest.size, Nat.add_comm] at hmem
  unfold ancestors
  rw [← take_ownersFrom forest forest.size steps, List.take_of_length_le]
  · exact List.mem_of_mem_take hmem
  · exact length_ownersFrom_le hsound _ _

/-- The ancestors of a card are the cards above it. -/
theorem mem_ancestors_iff {handle above : Handle} :
    above ∈ forest.ancestors handle ↔ Relation.TransGen forest.Under handle above := by
  refine ⟨transGen_of_mem_ownersFrom, fun h => ?_⟩
  obtain ⟨steps, hmem⟩ := exists_mem_ownersFrom h
  exact ownersFrom_subset_ancestors hsound steps handle hmem

/-! ## Lines of ancestors -/

theorem nodup_ancestors (handle : Handle) : (forest.ancestors handle).Nodup :=
  nodup_ownersFrom hsound _ _

theorem not_mem_ancestors_self (handle : Handle) : handle ∉ forest.ancestors handle := by
  intro hmem
  exact hsound.acyclic handle ((mem_ancestors_iff hsound).1 hmem)

/-- The ancestors of a card are its owner and the ancestors of that. -/
theorem ancestors_of_owner? {child owner : Handle} (howner : forest.owner? child = some owner) :
    forest.ancestors child = owner :: forest.ancestors owner := by
  -- A walk with one step more than there are cards is no longer than one without it.
  have hlength := length_ownersFrom_le hsound (forest.size + 1) child
  have htake := take_ownersFrom forest forest.size 1 (forest.owner? child)
  rw [List.take_of_length_le hlength, howner] at htake
  unfold ancestors
  rw [howner, ← htake]
  rfl

theorem rootOf_of_owner? {child owner : Handle} (howner : forest.owner? child = some owner) :
    forest.rootOf child = forest.rootOf owner := by
  unfold rootOf
  rw [ancestors_of_owner? hsound howner, List.getLastD_cons]

theorem depth_of_owner? {child owner : Handle} (howner : forest.owner? child = some owner) :
    forest.depth child = forest.depth owner + 1 := by
  unfold depth
  rw [ancestors_of_owner? hsound howner, List.length_cons]

/-- Above a card there are fewer cards than there are at all. -/
theorem depth_lt_size {handle : Handle} (h : forest.contains handle = true) :
    forest.depth handle < forest.size := by
  have hline : (handle :: forest.ancestors handle).Nodup :=
    List.nodup_cons.2 ⟨not_mem_ancestors_self hsound handle, nodup_ancestors hsound handle⟩
  have hlength := length_le_size hline fun above hmem => by
    rcases List.mem_cons.1 hmem with rfl | hmem
    · exact h
    · exact contains_of_mem_ownersFrom hsound hmem
  rw [List.length_cons] at hlength
  exact hlength

/-- What holds of all cards without owners, and of a card if it holds of its owner, holds of every
card. -/
theorem Sound.climbing {motive : Handle → Prop}
    (top : ∀ handle, forest.owner? handle = none → motive handle)
    (up : ∀ handle owner, forest.owner? handle = some owner → motive owner → motive handle)
    (handle : Handle) : motive handle := by
  induction hdepth : forest.depth handle generalizing handle with
  | zero =>
    apply top
    cases howner : forest.owner? handle with
    | none => rfl
    | some owner =>
      rw [depth_of_owner? hsound howner] at hdepth
      cases hdepth
  | succ depth ih =>
    cases howner : forest.owner? handle with
    | none => exact top handle howner
    | some owner =>
      rw [depth_of_owner? hsound howner] at hdepth
      exact up handle owner howner (ih owner (Nat.succ.inj hdepth))

theorem depth_lt_of_mem_ancestors {handle above : Handle}
    (h : above ∈ forest.ancestors handle) : forest.depth above < forest.depth handle := by
  induction handle using Sound.climbing hsound with
  | top handle howner => simp [ancestors_of_owner?_eq_none howner] at h
  | up handle owner howner ih =>
    rw [depth_of_owner? hsound howner]
    rw [ancestors_of_owner? hsound howner, List.mem_cons] at h
    rcases h with rfl | h
    · omega
    · have hless := ih h
      omega

theorem depth_le_depth {handle above : Handle}
    (h : handle = above ∨ above ∈ forest.ancestors handle) :
    forest.depth above ≤ forest.depth handle := by
  rcases h with rfl | hmem
  · exact Nat.le_refl _
  · exact Nat.le_of_lt (depth_lt_of_mem_ancestors hsound hmem)

/-! ## Roots -/

omit hsound in
theorem rootOf_of_owner?_eq_none {handle : Handle} (h : forest.owner? handle = none) :
    forest.rootOf handle = handle := by
  unfold rootOf
  rw [ancestors_of_owner?_eq_none h]
  rfl

theorem owner?_rootOf (handle : Handle) : forest.owner? (forest.rootOf handle) = none := by
  induction handle using Sound.climbing hsound with
  | top handle howner => rw [rootOf_of_owner?_eq_none howner, howner]
  | up handle owner howner ih => rw [rootOf_of_owner? hsound howner, ih]

theorem rootOf_eq_or_mem_ancestors (handle : Handle) :
    forest.rootOf handle = handle ∨ forest.rootOf handle ∈ forest.ancestors handle := by
  induction handle using Sound.climbing hsound with
  | top handle howner => exact .inl (rootOf_of_owner?_eq_none howner)
  | up handle owner howner ih =>
    rw [rootOf_of_owner? hsound howner, ancestors_of_owner? hsound howner, List.mem_cons]
    exact .inr ih

/-- On the way up from a card there is no card without an owner but the root. -/
theorem eq_rootOf_of_owner?_eq_none {handle root : Handle} (hroot : forest.owner? root = none)
    (h : handle = root ∨ root ∈ forest.ancestors handle) : root = forest.rootOf handle := by
  induction handle using Sound.climbing hsound with
  | top handle howner =>
    rw [rootOf_of_owner?_eq_none howner]
    simpa [ancestors_of_owner?_eq_none howner, eq_comm] using h
  | up handle owner howner ih =>
    rw [rootOf_of_owner? hsound howner]
    apply ih
    rcases h with rfl | h
    · rw [howner] at hroot
      cases hroot
    · rw [ancestors_of_owner? hsound howner, List.mem_cons] at h
      exact h.imp_left Eq.symm

theorem contains_rootOf {handle : Handle} (h : forest.contains handle = true) :
    forest.contains (forest.rootOf handle) = true := by
  rcases rootOf_eq_or_mem_ancestors hsound handle with heq | hmem
  · rw [heq, h]
  · exact contains_of_mem_ownersFrom hsound hmem

end

end CardRules.Forest
