import CardRules.Proofs.Forest.Growth
import CardRules.Proofs.Outcomes
import Mathlib.Data.List.Forall2

/-!
Templates and the cards that are assembled from them. What assembling answers is decided by the
factory alone: it fails if parts nest too deep (`Factory.excess?`). And what is assembled is decided
by the factory too: `Forest.Assembled` says that the intrinsic children of a card, and theirs in
turn, are the parts that the factory knows, in the order in which it names them.
-/

namespace CardRules

open EngineM

/-! ## What a factory decides -/

namespace Factory

variable {factory : Factory} {levels : Nat} {id part : String}

/-- Whether a factory makes cards of an id. -/
def knows (factory : Factory) (id : String) : Bool := (factory.make? id).isSome

/-- Parts nest so many levels deep below the cards of an id. -/
def Nests (factory : Factory) : Nat → String → Prop
  | 0, _ => True
  | levels + 1, id =>
    factory.knows id = true ∧ ∃ part ∈ factory.parts id, factory.Nests levels part

/-- The first part, in the order of assembly, that nests too deep for a number of levels. -/
def excess? (factory : Factory) : Nat → String → Option String
  | 0, id => some id
  | levels + 1, id =>
    if factory.knows id then (factory.parts id).findSome? (factory.excess? levels) else none

theorem nests_of_excess? (h : factory.excess? levels id = some part) :
    factory.Nests levels id := by
  induction levels generalizing id with
  | zero => trivial
  | succ levels ih =>
    unfold excess? at h
    split at h
    next hknown =>
      obtain ⟨above, hmem, habove⟩ := List.exists_of_findSome?_eq_some h
      exact ⟨hknown, above, hmem, ih habove⟩
    next => simp at h

/-- A value, unless some part nests too deep. -/
def verdict {α : Type} (excess : Option String) (value : α) : Except Error α :=
  match excess with
  | some part => .error (.invalidTemplate (.partsTooDeep part Engine.partLimit))
  | none => .ok value

/-- What assembling the card of an id answers; `next` is the handle of the next card to come. -/
def answer (factory : Factory) (next : Handle) (levels : Nat) (id : String) :
    Except Error (Option Handle) :=
  verdict (factory.excess? levels id) (if factory.knows id then some next else none)

theorem answer_eq_some {next made : Handle}
    (h : factory.answer next levels id = .ok (some made)) :
    made = next ∧ factory.knows id = true ∧ factory.excess? levels id = none := by
  unfold answer verdict at h
  split at h
  · cases h
  next hexcess =>
    split at h
    next hknown =>
      cases h
      exact ⟨rfl, hknown, hexcess⟩
    next => cases h

/-- A factory gives its cards the ids that they are asked for with. -/
def NamesCards (factory : Factory) : Prop :=
  ∀ id card, factory.make? id = some card → card.id = id

theorem namesCards_ofCatalog (catalog : Catalog) : (ofCatalog catalog).NamesCards := by
  intro id card h
  obtain ⟨template, hfound, rfl⟩ := Option.map_eq_some_iff.1 h
  have hid : template.id = id := by simpa using List.find?_some hfound
  exact hid

end Factory

/-- The factory of an engine; without one, a factory that knows nothing. -/
def Engine.maker (engine : Engine) : Factory := engine.factory.getD { make? := fun _ => none }

/-- A card that is made comes from a factory. -/
theorem Engine.exists_factory_of_make? {engine : Engine} {id : String} {card : Card}
    (hmade : engine.maker.make? id = some card) :
    ∃ factory, engine.factory = some factory ∧ factory.make? id = some card := by
  unfold maker at hmade
  cases hfactory : engine.factory with
  | none => simp [hfactory] at hmade
  | some factory => exact ⟨factory, rfl, by simpa [hfactory] using hmade⟩

theorem Engine.start_assemble (settle : EngineM Unit) (engine : Engine) (levels : Nat)
    (id : String) :
    (assemble settle (levels + 1) id).start engine =
      match engine.maker.make? id with
      | none => some (.ok none, engine)
      | some card =>
        ((fun _ => some engine.forest.next) <$>
          (engine.maker.parts id).forM (addPart settle levels engine.forest.next)).start
            (engine.addCard card) := by
  rw [start_assemble_succ]
  unfold maker
  cases engine.factory with
  | none => rfl
  | some factory => cases h : factory.make? id <;> simp [h]

/-! ## What is assembled -/

/-- Lists that match element by element match in another way too, if that holds of what occurs. -/
theorem forall₂_imp_of_mem {α β : Type} {left right : α → β → Prop} {as : List α} {bs : List β}
    (h : List.Forall₂ left as bs) (himp : ∀ a, ∀ b ∈ bs, left a b → right a b) :
    List.Forall₂ right as bs := by
  induction h with
  | nil => exact .nil
  | cons hhead _ ih =>
    refine .cons (himp _ _ List.mem_cons_self hhead) (ih ?_)
    intro a b hmem
    exact himp a b (List.mem_cons_of_mem _ hmem)

namespace Forest

variable {forest after : Forest} {factory : Factory} {levels : Nat} {id part : String}
  {handle child : Handle} {done : List String}

/-- A card is what a factory describes, down to so many levels: it has the id, and its intrinsic
children are the parts that the factory knows, each of them assembled likewise. -/
def Assembled (forest : Forest) (factory : Factory) : Nat → String → Handle → Prop
  | 0, _, _ => False
  | levels + 1, id, handle =>
    ∃ card, forest.get? handle = some card ∧ card.id = id ∧
      List.Forall₂ (forest.Assembled factory levels) ((factory.parts id).filter factory.knows)
        card.intrinsicChildren

/-- What is assembled stays so if its cards keep their ids and their intrinsic children. -/
theorem Assembled.mono (concerned : Handle → Prop)
    (hkept : ∀ handle card, concerned handle → forest.get? handle = some card →
      (∀ child ∈ card.intrinsicChildren, concerned child) ∧
        ∃ later, after.get? handle = some later ∧ later.id = card.id ∧
          later.intrinsicChildren = card.intrinsicChildren)
    (hconcerned : concerned handle) (h : forest.Assembled factory levels id handle) :
    after.Assembled factory levels id handle := by
  induction levels generalizing id handle with
  | zero => exact h
  | succ levels ih =>
    obtain ⟨card, hcard, hid, hparts⟩ := h
    obtain ⟨hchildren, later, hlater, hid', hsame⟩ := hkept handle card hconcerned hcard
    refine ⟨later, hlater, hid'.trans hid, ?_⟩
    rw [hsame]
    exact forall₂_imp_of_mem hparts fun _ child hmem hpart => ih (hchildren child hmem) hpart

theorem Assembled.grow {within : Set Handle} (hgrows : Grows within forest after)
    (h : forest.Assembled factory levels id handle) : after.Assembled factory levels id handle := by
  refine h.mono (fun _ => True) (fun handle card _ hcard => ⟨fun _ _ => trivial, ?_⟩) trivial
  obtain ⟨later, hlater, hkept⟩ := hgrows.kept hcard
  exact ⟨later, hlater, hkept.id, hkept.intrinsicChildren⟩

/-- A card under construction: it has no owner yet, and its intrinsic children are those of some
parts that the factory knows. -/
def Building (forest : Forest) (factory : Factory) (levels : Nat) (id : String)
    (handle : Handle) (done : List String) : Prop :=
  ∃ card, forest.get? handle = some card ∧ card.owner = none ∧
    (factory.NamesCards → card.id = id ∧
      List.Forall₂ (forest.Assembled factory levels) (done.filter factory.knows)
        card.intrinsicChildren)

theorem Building.grow {within : Set Handle} (hgrows : Grows within forest after)
    (h : forest.Building factory levels id handle done) :
    after.Building factory levels id handle done := by
  obtain ⟨card, hcard, howner, hparts⟩ := h
  obtain ⟨later, hlater, hkept⟩ := hgrows.kept hcard
  refine ⟨later, hlater, ?_, fun hnames => ?_⟩
  · rcases hkept.owner with hnone | hsame
    · exact hnone
    · exact hsame.trans howner
  · obtain ⟨hid, hbuilt⟩ := hparts hnames
    refine ⟨hkept.id.trans hid, ?_⟩
    rw [hkept.intrinsicChildren]
    exact hbuilt.imp fun _ _ hpart => hpart.grow hgrows

/-- A part that the factory does not know is passed over. -/
theorem Building.pass (h : forest.Building factory levels id handle done)
    (hknown : factory.knows part = false) :
    forest.Building factory levels id handle (done ++ [part]) := by
  obtain ⟨card, hcard, howner, hparts⟩ := h
  refine ⟨card, hcard, howner, fun hnames => ?_⟩
  rw [List.filter_append]
  simpa [hknown] using hparts hnames

/-- An assembled part is attached. The card under construction lies in nothing that is assembled, so
all of that stays as it is. -/
theorem Building.attach (h : forest.Building factory levels id handle done)
    (hsound : forest.Sound) (hattach : forest.attach handle child true = .ok after)
    (hknown : factory.knows part = true)
    (hchild : factory.NamesCards → forest.Assembled factory levels part child) :
    after.Building factory levels id handle (done ++ [part]) := by
  obtain ⟨card, hcard, howner, hparts⟩ := h
  obtain ⟨-, -, hne, -, -⟩ := attach_eq_ok hattach
  have hlookup := get?_attach hattach
  have hnot : child ∉ card.children := by
    rw [← children_of_get? hcard]
    exact not_mem_children_of_attach hattach hsound handle
  have hchildren := Card.intrinsicChildren_withChild (hsound.listsIntrinsic hcard) hnot true
  -- The card under construction has no owner, so it is no child.
  have hnoChild : ∀ place found, forest.get? place = some found →
      ∀ below ∈ found.intrinsicChildren, below ≠ handle := by
    intro place found hfound below hbelow heq
    have hlisted : below ∈ forest.children place := by
      rw [children_of_get? hfound]
      exact List.mem_of_mem_filter hbelow
    have hunder := hsound.mem_children_iff.1 hlisted
    rw [heq, owner?_of_get? hcard, howner] at hunder
    cases hunder
  have hstays : ∀ part other, other ≠ handle → forest.Assembled factory levels part other →
      after.Assembled factory levels part other := by
    intro part other hother hassembled
    refine hassembled.mono (· ≠ handle) (fun place found hplace hfound => ?_) hother
    refine ⟨hnoChild place found hfound, ?_⟩
    rw [hlookup]
    by_cases heq : place = child
    · subst heq
      exact ⟨found.withOwner (some handle), by simp [hfound], rfl, rfl⟩
    · exact ⟨found, by simp [heq, hplace, hfound], rfl, rfl⟩
  refine ⟨card.withChild child true, ?_, howner, fun hnames => ?_⟩
  · rw [hlookup, if_neg (Ne.symm hne), if_pos rfl, hcard]
    rfl
  · obtain ⟨hid, hbuilt⟩ := hparts hnames
    refine ⟨hid, ?_⟩
    rw [hchildren, List.filter_append, List.filter_cons_of_pos hknown]
    refine List.rel_append ?_ (.cons (hstays part child hne (hchild hnames)) .nil)
    exact forall₂_imp_of_mem hbuilt fun part below hbelow hpart =>
      hstays part below (hnoChild handle card hcard below hbelow) hpart

end Forest

end CardRules
