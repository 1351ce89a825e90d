import CardRules.Proofs.Registration
import CardRules.Workbench

/-!
Labels. A key can be read off its text: the number is what stands behind the last hash, even if the
id ends in a hash and a number itself. So no two registered cards are shown under one text, whatever
cards come in.
-/

namespace CardRules

/-! ## Keys and their texts -/

section

variable {α : Type} {separator : α} {before before' between after after' : List α}

/-- What begins with its last separator has nothing before a separator. -/
theorem eq_nil_of_cons_eq_append (hafter : separator ∉ after)
    (h : separator :: after = between ++ separator :: after') : between = [] := by
  cases between with
  | nil => rfl
  | cons _ between =>
    rw [(List.cons.inj h).2] at hafter
    exact absurd (List.mem_append_right between List.mem_cons_self) hafter

/-- A list is divided in one way at the last of its separators. -/
theorem append_cons_inj_of_not_mem (hafter : separator ∉ after) (hafter' : separator ∉ after')
    (h : before ++ separator :: after = before' ++ separator :: after') :
    before = before' ∧ after = after' := by
  rcases List.append_eq_append_iff.1 h with ⟨between, rfl, hrest⟩ | ⟨between, rfl, hrest⟩
  · obtain rfl := eq_nil_of_cons_eq_append hafter hrest
    exact ⟨(List.append_nil before).symm, (List.cons.inj hrest).2⟩
  · obtain rfl := eq_nil_of_cons_eq_append hafter' hrest
    exact ⟨List.append_nil before', (List.cons.inj hrest).2.symm⟩

end

theorem Key.toList_text (key : Key) :
    key.text.toList = key.id.toList ++ '#' :: Nat.toDigits 10 key.index := by
  unfold text
  rw [String.toList_append, String.toList_append, List.append_assoc, Nat.toString_eq_repr,
    Nat.toList_repr]
  rfl

theorem hash_not_mem_toDigits (number : Nat) : '#' ∉ Nat.toDigits 10 number := by
  intro hmem
  exact absurd (Nat.isDigit_of_mem_toDigits (by decide) (by decide) hmem) (by decide)

/-- Keys with the same text are the same key. -/
theorem Key.text_inj {first second : Key} (h : first.text = second.text) : first = second := by
  obtain ⟨id, index⟩ := first
  obtain ⟨id', index'⟩ := second
  have htexts := congrArg String.toList h
  rw [toList_text, toList_text] at htexts
  obtain ⟨hid, hdigits⟩ := append_cons_inj_of_not_mem (hash_not_mem_toDigits index)
    (hash_not_mem_toDigits index') htexts
  obtain rfl : id = id' := String.toList_injective hid
  have hindex : index = index' :=
    calc index = Nat.ofDigitChars 10 (Nat.toDigits 10 index) 0 :=
          Nat.ofDigitChars_ten_toDigits.symm
      _ = Nat.ofDigitChars 10 (Nat.toDigits 10 index') 0 := by rw [hdigits]
      _ = index' := Nat.ofDigitChars_ten_toDigits
  rw [hindex]

/-- A card that has a key is shown by the text of the key first. -/
theorem Workbench.cardText_of_key? {card : Card} {key : Key} (h : card.key? = some key) :
    ∃ rest, cardText card = key.text ++ (" \"" ++ card.name ++ "\"" ++ rest) := by
  obtain ⟨rest, htext⟩ := exists_cardText_eq card
  rw [h] at htext
  exact ⟨rest, htext⟩

namespace Engine

/-- Registered cards can be told apart by their texts. -/
structure ToldApart (engine : Engine) : Prop where
  /-- A registered card is shown by the text of its key in the registry, and then its name. -/
  shown : ∀ handle key, engine.registry.keyOf? handle = some key →
    ∃ card rest, engine.forest.get? handle = some card ∧ card.key? = some key ∧
      Workbench.cardText card = key.text ++ (" \"" ++ card.name ++ "\"" ++ rest)
  /-- The keys of two registered cards have different texts. -/
  apart : ∀ first second key key', engine.registry.keyOf? first = some key →
    engine.registry.keyOf? second = some key' → first ≠ second → key.text ≠ key'.text

theorem Identified.toldApart {engine : Engine} (h : engine.Identified) : engine.ToldApart where
  shown handle key hkey := by
    obtain ⟨card, hcard, hid, hindex⟩ := h.named handle key hkey
    have hcardKey : card.key? = some key := by
      unfold Card.key?
      rw [hindex, hid]
      rfl
    obtain ⟨rest, htext⟩ := Workbench.cardText_of_key? hcardKey
    exact ⟨card, rest, hcard, hcardKey, htext⟩
  apart first second key key' hfirst hsecond hne htext := by
    obtain rfl := Key.text_inj htext
    exact hne (h.unshared hfirst hsecond)

/-! ## The law -/

/-- No two keys have the same text, whatever their ids are. So in every run, whatever cards come in
and whatever is asked for, the registered cards can be told apart by the texts of their keys, at the
end and whenever the program or a callback sees the engine. -/
theorem key_texts_are_unambiguous {α : Type} (callbacks : Callbacks) (depth : Nat)
    (program : Program α) (config : Config) (factory : Option Factory) :
    (∀ first second : Key, first.text = second.text → first = second) ∧
      Upholds ToldApart callbacks depth program (new config factory) :=
  ⟨fun _ _ => Key.text_inj,
    upholds_of_stays identified_stays (fun _ => Identified.toldApart) callbacks.askOnly_true depth
      program.asksOnly_true (identified_new config factory)⟩

/-- Torches come in, one under an id that looks like a key and one with a number that is taken. -/
def labelling : Program Unit :=
  .perform (.addCard { id := "torch", category := .item }) fun _ =>
  .perform (.addCard { id := "torch#0", category := .item }) fun _ =>
  .perform (.addCard { id := "torch", category := .item, index := some 0 }) fun _ =>
  .perform (.addCard { id := "torch#", category := .item, index := some 10 }) fun _ => .done ()

theorem torches_are_told_apart :
    (∀ key : Key, key.text = "torch#1#2" ↔ key = ⟨"torch#1", 2⟩) ∧
      ∃ result after, run moving 0 labelling (new {}) = some (result, after) ∧
        after.registry.handles.map (fun handle => (after.registry.keyOf? handle).map Key.text) =
          [some "torch#0", some "torch#0#0", some "torch#1", some "torch##10"] ∧
        after.ToldApart := by
  obtain ⟨hkeys, hupholds⟩ := key_texts_are_unambiguous moving 0 labelling {} none
  have htexts : (run moving 0 labelling (new {})).map (fun (_, after) =>
      after.registry.handles.map fun handle => (after.registry.keyOf? handle).map Key.text) =
        some [some "torch#0", some "torch#0#0", some "torch#1", some "torch##10"] := by
    decide +kernel
  obtain ⟨⟨result, after⟩, hrun, hafter⟩ := Option.map_eq_some_iff.1 htexts
  have htext : Key.text ⟨"torch#1", 2⟩ = "torch#1#2" := by decide
  refine ⟨fun key => ⟨fun hsame => ?_, fun hsame => hsame ▸ htext⟩, result, after, hrun, hafter,
    hupholds.final hrun⟩
  exact hkeys key ⟨"torch#1", 2⟩ (hsame.trans htext.symm)

end Engine

end CardRules
