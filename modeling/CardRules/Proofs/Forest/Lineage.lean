import CardRules.Proofs.Forest.Preorder
import CardRules.Proofs.Forest.Relinking

/-!
Up and down from the same card. Whatever was attached, removed and detached before, the walk down
from a card finds the cards from which the walk up finds it, level by level; and each card lies
below exactly one card that nobody owns.
-/

namespace CardRules.Forest

variable {forest after : Forest}

/-! ## How forests come about -/

/-- A forest that comes about from the empty one: cards come in without links, and are attached,
removed and detached after that. Nothing else that is done to cards, or with the outbox, concerns
the links. -/
inductive Planted : Forest → Prop
  | empty : Planted ∅
  | insert {forest : Forest} {card : Card} (before : Planted forest)
    (unlinked : card.links = (none, [], ∅)) : Planted (forest.insert card)
  | attach {forest after : Forest} {parent child : Handle} {intrinsic : Bool}
    (before : Planted forest) (attached : forest.attach parent child intrinsic = .ok after) :
    Planted after
  | remove {forest after : Forest} {parent child : Handle} {force : Bool} (before : Planted forest)
    (removed : forest.remove? parent child force = some after) : Planted after
  | detach {forest after : Forest} {child : Handle} {force : Bool} (before : Planted forest)
    (detached : forest.detach? child force = some after) : Planted after
  | edit {forest : Forest} {handle : Handle} {change : Card → Card} (before : Planted forest)
    (edits : ∀ card, (change card).links = card.links) : Planted (forest.modify handle change)
  | emit {forest : Forest} (before : Planted forest) (source : Handle) (event : Event) :
    Planted (forest.emit source event)
  | emptied {forest : Forest} (before : Planted forest) : Planted forest.emptied

/-- A card without links comes in as a tree of its own, whatever number and listeners it has. -/
theorem Sound.insert_unlinked (hsound : forest.Sound) {card : Card}
    (hcard : card.links = (none, [], ∅)) : (forest.insert card).Sound := by
  obtain ⟨howner, hchildren, hintrinsic⟩ : card.owner = none ∧ card.children = [] ∧
      card.intrinsic = ∅ := by
    simpa [Card.links] using hcard
  let fresh : Card := { card with index := none, listeners := [] }
  have hfresh : fresh.IsFresh := ⟨rfl, hchildren, hintrinsic, howner, rfl⟩
  have hview : SameView Card.links (forest.insert fresh) (forest.insert card) := by
    intro handle
    rw [get?_insert, get?_insert]
    split
    · rfl
    · rfl
  exact hview.sound (hsound.insert hfresh)

theorem Planted.sound (h : forest.Planted) : forest.Sound := by
  induction h with
  | empty => exact sound_empty
  | insert _ hunlinked ih => exact ih.insert_unlinked hunlinked
  | attach _ hattached ih => exact ih.attach hattached
  | remove _ hremoved ih => exact ih.remove? hremoved
  | detach _ hdetached ih =>
    unfold detach? at hdetached
    split at hdetached
    · exact ih.remove? hdetached
    · cases hdetached
  | edit _ hedits ih => exact ih.modify hedits _
  | emit _ source event ih => exact ih.emit source event
  | emptied _ ih => exact ih.emptied

theorem attach_of_toOption {parent child : Handle} {intrinsic : Bool}
    (h : (forest.attach parent child intrinsic).toOption = some after) :
    forest.attach parent child intrinsic = .ok after := by
  cases hattach : forest.attach parent child intrinsic with
  | error error => simp [hattach, Except.toOption] at h
  | ok made => simpa [hattach, Except.toOption] using h

/-! ## The two walks -/

section

variable (hsound : forest.Sound)

include hsound

/-- A card lies so many levels below another if that is one of the first so many above it. -/
theorem mem_descendants_some_iff {root low : Handle} {levels : Nat} :
    low ∈ forest.descendants root (some levels) ↔ root ∈ (forest.ancestors low).take levels := by
  rw [descendants_eq_below hsound, Option.getD_some]
  exact mem_below_iff hsound

theorem mem_descendants_none_iff {root low : Handle} :
    low ∈ forest.descendants root none ↔ root ∈ forest.ancestors low := by
  rw [descendants_eq_below hsound, Option.getD_none, mem_below_iff hsound, List.take_of_length_le]
  exact length_ownersFrom_le hsound _ low

/-- The walk down finds every card below, if it is not cut off. -/
theorem descends_iff {low root : Handle} :
    forest.Descends low root ↔ low ∈ forest.descendants root none := by
  rw [mem_descendants_none_iff hsound, mem_ancestors_iff hsound, descends_iff_transGen hsound]

theorem nodup_descendants (root : Handle) (limit : Option Nat) :
    (forest.descendants root limit).Nodup := by
  rw [descendants_eq_below hsound]
  exact nodup_below hsound _ root

theorem not_mem_descendants_self (root : Handle) (limit : Option Nat) :
    root ∉ forest.descendants root limit := by
  rw [descendants_eq_below hsound]
  intro hmem
  exact not_mem_ancestors_self hsound root (mem_ancestors_of_mem_below hsound hmem)

/-- The root of a card is the one card without an owner that has it below, or is it. -/
theorem eq_rootOf_iff {low root : Handle} (hknown : forest.contains low = true) :
    root = forest.rootOf low ↔
      forest.contains root = true ∧ forest.owner? root = none ∧
        (low = root ∨ low ∈ forest.descendants root none) := by
  rw [mem_descendants_none_iff hsound]
  constructor
  · rintro rfl
    refine ⟨contains_rootOf hsound hknown, owner?_rootOf hsound low, ?_⟩
    exact (rootOf_eq_or_mem_ancestors hsound low).imp_left Eq.symm
  · rintro ⟨-, hroot, hline⟩
    exact eq_rootOf_of_owner?_eq_none hsound hroot hline

end

/-! ## The law -/

/-- The walks up and down agree, in every forest that attaching, removing and detaching lead to. A
card is within so many levels below another if and only if that is among its first so many
ancestors, and anywhere below it if and only if that is any of them. Neither walk meets a card twice
or comes back to its start. And the root of a card is the only card without an owner of which the
card is a descendant, if it is not that card itself. -/
theorem walks_up_and_down_agree (h : forest.Planted) :
    (∀ root low levels, low ∈ forest.descendants root (some levels) ↔
      root ∈ (forest.ancestors low).take levels) ∧
    (∀ root low, low ∈ forest.descendants root none ↔ root ∈ forest.ancestors low) ∧
    (∀ root limit, (forest.descendants root limit).Nodup ∧
      root ∉ forest.descendants root limit) ∧
    (∀ low, (forest.ancestors low).Nodup ∧ low ∉ forest.ancestors low) ∧
    ∀ low, forest.contains low = true → ∀ root, root = forest.rootOf low ↔
      forest.contains root = true ∧ forest.owner? root = none ∧
        (low = root ∨ low ∈ forest.descendants root none) := by
  have hsound := h.sound
  refine ⟨fun root low levels => ?_, fun root low => ?_, fun root limit => ?_, fun low => ?_,
    fun low hknown root => ?_⟩
  · exact mem_descendants_some_iff hsound
  · exact mem_descendants_none_iff hsound
  · exact ⟨nodup_descendants hsound root limit, not_mem_descendants_self hsound root limit⟩
  · exact ⟨nodup_ancestors hsound low, not_mem_ancestors_self hsound low⟩
  · exact eq_rootOf_iff hsound hknown

/-- A trunk with two branches; a twig is moved from one branch to the other. -/
def orchard : Option Forest := do
  let cards : List Card := ["trunk", "left", "right", "twig"].map fun id =>
    { id, category := .item }
  let forest := cards.foldl insert ∅
  let forest ← (forest.attach ⟨0⟩ ⟨1⟩ true).toOption
  let forest ← (forest.attach ⟨0⟩ ⟨2⟩ false).toOption
  let forest ← (forest.attach ⟨1⟩ ⟨3⟩ false).toOption
  let forest ← forest.detach? ⟨3⟩ false
  (forest.attach ⟨2⟩ ⟨3⟩ true).toOption

theorem planted_of_orchard (h : orchard = some forest) : forest.Planted := by
  simp only [orchard, List.map, List.foldl, bind, Option.bind_eq_some_iff] at h
  obtain ⟨first, hfirst, second, hsecond, third, hthird, fourth, hfourth, hlast⟩ := h
  have hplanted : first.Planted := by
    refine Planted.attach ?_ (attach_of_toOption hfirst)
    exact (((Planted.empty.insert rfl).insert rfl).insert rfl).insert rfl
  have hbranches := hplanted.attach (attach_of_toOption hsecond)
  have hmoved := (hbranches.attach (attach_of_toOption hthird)).detach hfourth
  exact hmoved.attach (attach_of_toOption hlast)

/-- The twig is found from the trunk in two levels, and not in one. -/
theorem twigs_lie_below_the_trunk :
    ∃ forest : Forest, forest.Planted ∧ forest.descendants ⟨0⟩ none = [⟨1⟩, ⟨2⟩, ⟨3⟩] ∧
      forest.ancestors ⟨3⟩ = [⟨2⟩, ⟨0⟩] ∧ ⟨3⟩ ∈ forest.descendants ⟨0⟩ (some 2) ∧
      ⟨3⟩ ∉ forest.descendants ⟨0⟩ (some 1) ∧ (forest.descendants ⟨0⟩ none).Nodup ∧
      (⟨0⟩ : Handle) = forest.rootOf ⟨3⟩ := by
  have hfacts : orchard.map (fun forest =>
      (forest.descendants ⟨0⟩ none, forest.ancestors ⟨3⟩, forest.contains ⟨0⟩, forest.contains ⟨3⟩,
        forest.owner? ⟨0⟩)) =
      some ([⟨1⟩, ⟨2⟩, ⟨3⟩], [⟨2⟩, ⟨0⟩], true, true, none) := by
    decide +kernel
  obtain ⟨forest, hforest, hvalues⟩ := Option.map_eq_some_iff.1 hfacts
  simp only [Prod.mk.injEq] at hvalues
  obtain ⟨hdown, hup, htrunk, htwig, howner⟩ := hvalues
  have hplanted := planted_of_orchard hforest
  obtain ⟨hlevels, hall, hdistinct, -, hroots⟩ := walks_up_and_down_agree hplanted
  refine ⟨forest, hplanted, hdown, hup, ?_, ?_, (hdistinct ⟨0⟩ none).1, ?_⟩
  · rw [hlevels, hup]
    decide
  · rw [hlevels, hup]
    decide
  · rw [hroots ⟨3⟩ htwig, hall, hup]
    exact ⟨htrunk, howner, .inr (by decide)⟩

end CardRules.Forest
