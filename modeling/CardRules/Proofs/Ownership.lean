import CardRules.Proofs.Following
import CardRules.Proofs.Forest.Relinking
import CardRules.Proofs.Numbers

/-!
The forest of an engine is sound in every run, whatever the programs of the run ask for, as long as
the cards that come in are fresh.
-/

namespace CardRules

/-- A factory whose cards are fresh. -/
def Factory.MakesFresh (factory : Factory) : Prop :=
  ∀ id card, factory.make? id = some card → card.IsFresh

/-- The cards that an operation brings in, by itself or through a factory, are fresh. -/
def Operation.BringsFresh : Operation → Prop
  | .addCard card => card.IsFresh
  | .setFactory factory => factory.MakesFresh
  | _ => True

theorem Factory.makesFresh_ofCatalog (catalog : Catalog) : (ofCatalog catalog).MakesFresh := by
  intro id card h
  obtain ⟨template, -, rfl⟩ := Option.map_eq_some_iff.1 h
  exact Card.isFresh_ofTemplate template

/-- Where there is no factory, none makes anything but fresh cards. -/
theorem makesFresh_of_none : ∀ made, (none : Option Factory) = some made → made.MakesFresh := by
  intro made hmade
  cases hmade

namespace Engine

/-- The forest is sound, and the factory makes fresh cards. -/
structure SoundlyLinked (engine : Engine) : Prop where
  sound : engine.forest.Sound
  fresh : ∀ factory, engine.factory = some factory → factory.MakesFresh

variable {engine after : Engine}

theorem soundlyLinked_new (config : Config) {factory : Option Factory}
    (h : ∀ made, factory = some made → made.MakesFresh) : (new config factory).SoundlyLinked :=
  ⟨Forest.sound_empty, h⟩

theorem SoundlyLinked.ofSame (h : engine.SoundlyLinked) (hsame : SameCards engine after) :
    after.SoundlyLinked :=
  ⟨hsame.forest ▸ h.sound, hsame.factory ▸ h.fresh⟩

theorem SoundlyLinked.register (h : engine.SoundlyLinked) (handle : Handle) :
    (engine.register handle).SoundlyLinked := by
  rcases register_cases engine handle with hsame | ⟨card, hnew, hcard⟩
  · rw [hsame]
    exact h
  · rw [register_of_get? hnew hcard]
    refine ⟨h.sound.modify ?_ handle, h.fresh⟩
    intro card
    rfl

theorem SoundlyLinked.addCard (h : engine.SoundlyLinked) {card : Card} (hfresh : card.IsFresh) :
    (engine.addCard card).SoundlyLinked := by
  -- The card is in the forest before it is registered.
  have hinserted : { engine with forest := engine.forest.insert card }.SoundlyLinked :=
    ⟨h.sound.insert hfresh, h.fresh⟩
  exact hinserted.register engine.forest.next

theorem SoundlyLinked.unregister (h : engine.SoundlyLinked) (handle : Handle) :
    (engine.unregister handle).SoundlyLinked := by
  rcases unregister_cases engine handle with hsame | hregistered
  · rw [hsame]
    exact h
  · rw [unregister_of_isRegistered hregistered]
    refine ⟨h.sound.modify ?_ handle, h.fresh⟩
    intro card
    rfl

theorem SoundlyLinked.unsubscribe (h : engine.SoundlyLinked) (handle : Handle)
    (listener : ListenerId) : (engine.unsubscribe handle listener).SoundlyLinked := by
  unfold Engine.unsubscribe
  split
  · refine ⟨h.sound.modify ?_ handle, h.fresh⟩
    intro card
    rfl
  · exact h

/-- A change of links that keeps the forest sound, and the delivery of what it raised. -/
theorem SoundlyLinked.relinked (h : engine.SoundlyLinked) {forest : Forest}
    (hsound : forest.Sound) : { engine with forest }.deliver.SoundlyLinked := by
  refine ⟨?_, ?_⟩
  · rw [forest_deliver]
    exact hsound.emptied
  · rw [factory_deliver]
    exact h.fresh

theorem links_of_isEdit {change : Card → Card} (h : Card.IsEdit change) (card : Card) :
    (change card).links = card.links := by
  obtain ⟨_, _, heq⟩ := h card
  rw [heq]
  rfl

/-- Every change keeps the forest sound. -/
theorem SoundlyLinked.change (hchange : Change Operation.BringsFresh engine after)
    (h : engine.SoundlyLinked) : after.SoundlyLinked := by
  cases hchange with
  | addCard asked => exact h.addCard asked
  | makeCard known made => exact h.addCard (h.fresh _ known _ _ made)
  | setFactory asked =>
    refine ⟨h.sound, fun factory hfactory => ?_⟩
    exact Option.some.inj hfactory ▸ asked
  | register => exact h.register _
  | unregister => exact h.unregister _
  | registerRule _ accepted =>
    obtain ⟨-, -, rfl⟩ := registerRule_eq_ok accepted
    exact h.ofSame ⟨rfl, rfl, rfl⟩
  | subscribe =>
    refine ⟨h.sound.modify ?_ _, h.fresh⟩
    intro card
    rfl
  | unsubscribe => exact h.unsubscribe _ _
  | attach attached => exact h.relinked (h.sound.attach attached)
  | remove _ removed => exact h.relinked (h.sound.remove? removed)
  | raise => exact h.relinked (h.sound.emit _ _)
  | tickAll => exact h.relinked ((Forest.sameView_foldl_emit _ _ _).sound h.sound)
  | deliver => exact h.relinked h.sound
  | edit edits => exact ⟨h.sound.modify (links_of_isEdit edits) _, h.fresh⟩
  | keepError => exact h.ofSame ⟨rfl, rfl, rfl⟩
  | note => exact h.ofSame ⟨rfl, rfl, rfl⟩

theorem soundlyLinked_stays : Stays Operation.BringsFresh SoundlyLinked := fun hstep =>
  hstep.keepsCards (fun hsame h => h.ofSame hsame) .change

/-! ## The law -/

/-- In every run whose cards come in fresh, the forest is sound at the end and whenever the program
or a callback sees the engine: owners and children agree, no card is listed twice, no card lies
below itself, intrinsic cards are children, and every link leads to a card of the forest. -/
theorem forest_is_sound_throughout {α : Type} {callbacks : Callbacks} {depth : Nat}
    {program : Program α} {config : Config} {factory : Option Factory}
    (hcallbacks : callbacks.AskOnly Operation.BringsFresh)
    (hprogram : program.AsksOnly Operation.BringsFresh)
    (hfactory : ∀ made, factory = some made → made.MakesFresh) :
    Upholds (·.forest.Sound) callbacks depth program (new config factory) :=
  upholds_of_stays soundlyLinked_stays (fun _ h => h.sound) hcallbacks depth hprogram
    (soundlyLinked_new config hfactory)

/-- Torches, each of them with a flame. -/
def torches : Factory := .ofCatalog <| .ofList [
  { id := "torch", category := .item, parts := ["flame"] }, { id := "flame", category := .item }]

/-- A bench is put up, and using it lights a torch on it and moves the flame. -/
def lighting : Program Unit :=
  .perform (.addCard { id := "bench", category := .location }) fun _ =>
  .perform (.registerRule
    { name := "light", trigger := .use, effects := [.create ["torch"] 1, .invoke ⟨"move"⟩] })
    fun _ =>
  .perform (.raise ⟨⟨0⟩, .use⟩) fun _ => .done ()

/-- Moves the flame from its torch to the container. -/
def moving : Callbacks := fun _ context =>
  .perform (.detach ⟨2⟩ true) fun _ =>
  .perform (.attach context.container ⟨2⟩ true) fun _ => .done ()

theorem makesFresh_torches : ∀ made, some torches = some made → made.MakesFresh :=
  fun _ hmade => Option.some.inj hmade ▸ Factory.makesFresh_ofCatalog _

theorem asksOnly_lighting : lighting.AsksOnly Operation.BringsFresh :=
  ⟨⟨rfl, rfl, rfl, rfl, rfl⟩, fun _ => ⟨trivial, fun _ => ⟨trivial, fun _ => trivial⟩⟩⟩

theorem askOnly_moving : moving.AskOnly Operation.BringsFresh :=
  fun _ _ => ⟨trivial, fun _ => ⟨trivial, fun _ => trivial⟩⟩

theorem lighting_is_sound_throughout :
    Upholds (·.forest.Sound) moving 1 lighting (new {} torches) ∧
      ∃ result after, run moving 1 lighting (new {} torches) = some (result, after) ∧
        after.forest.children ⟨0⟩ = [⟨1⟩, ⟨2⟩] ∧ after.forest.Sound := by
  have hlaw : Upholds (·.forest.Sound) moving 1 lighting (new {} torches) :=
    forest_is_sound_throughout askOnly_moving asksOnly_lighting makesFresh_torches
  have hchildren : (run moving 1 lighting (new {} torches)).map
      (fun (_, after) => after.forest.children ⟨0⟩) = some [⟨1⟩, ⟨2⟩] := by
    decide +kernel
  obtain ⟨⟨result, after⟩, hrun, hafter⟩ := Option.map_eq_some_iff.1 hchildren
  exact ⟨hlaw, result, after, hrun, hafter, hlaw.final hrun⟩

end Engine

end CardRules
