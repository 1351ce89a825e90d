import CardRules.Property
import Mathlib.Data.List.Induction

/-!
Tuning. The modifiers of a property are a map from sources that remembers in which order they came.
A source has the modifier that was added last, if the source was not removed since. A modifier from
a source that has one takes its place; a source that was removed comes in again at the end. The base
is changed apart from all that.
-/

namespace CardRules

/-- The source whose modifier a change is about. A change of the base is about none. -/
def PropertyChange.source? : PropertyChange → Option String
  | .addModifier modifier => some modifier.source
  | .removeModifier source => some source
  | .addBase _ => none
  | .setBase _ => none

namespace Property

/-! ## Histories -/

/-- The last change that is about the source of a modifier adds that modifier. -/
def AddedLast (changes : List PropertyChange) (modifier : Modifier) : Prop :=
  ∃ before later, changes = before ++ .addModifier modifier :: later ∧
    ∀ change ∈ later, change.source? ≠ some modifier.source

/-- A source was added to after it was last removed. -/
def InForce (changes : List PropertyChange) (source : String) : Prop :=
  ∃ modifier : Modifier, modifier.source = source ∧ AddedLast changes modifier

/-- At a place of a history a modifier is added from a source that is not in force there. -/
def ComesIn (changes : List PropertyChange) (source : String) (place : Nat) : Prop :=
  ∃ modifier, changes[place]? = some (.addModifier modifier) ∧ modifier.source = source ∧
    ¬ InForce (changes.take place) source

/-- The last place of a history at which a source comes in. -/
structure ComesInLast (changes : List PropertyChange) (source : String) (place : Nat) : Prop where
  comesIn : ComesIn changes source place
  last : ∀ other, ComesIn changes source other → other ≤ place

/-- The last time that one source comes in is before the last time that another one does. -/
def ComesInBefore (changes : List PropertyChange) (first second : String) : Prop :=
  ∃ place, ComesInLast changes first place ∧ ∃ later, ComesInLast changes second later ∧
    place < later

section

variable {changes : List PropertyChange} {change : PropertyChange} {modifier : Modifier}
  {source first second : String} {place : Nat}

theorem not_addedLast_nil : ¬ AddedLast [] modifier := by
  rintro ⟨before, later, hchanges, -⟩
  simp at hchanges

/-- With one more change, either that one added the modifier or it left its source alone. -/
theorem addedLast_concat_iff :
    AddedLast (changes ++ [change]) modifier ↔
      change = .addModifier modifier ∨
        (AddedLast changes modifier ∧ change.source? ≠ some modifier.source) := by
  constructor
  · rintro ⟨before, later, hchanges, halone⟩
    rcases List.eq_nil_or_concat later with rfl | ⟨later, last, rfl⟩
    · exact .inl (List.singleton_inj.1 (List.append_inj' hchanges rfl).2)
    · rw [List.concat_eq_append, ← List.cons_append, ← List.append_assoc] at hchanges
      obtain ⟨hbefore, hlast⟩ := List.append_inj' hchanges rfl
      obtain rfl := List.singleton_inj.1 hlast
      rw [List.concat_eq_append, List.forall_mem_append, List.forall_mem_singleton] at halone
      exact .inr ⟨⟨before, later, hbefore, halone.1⟩, halone.2⟩
  · rintro (rfl | ⟨⟨before, later, rfl, halone⟩, hother⟩)
    · exact ⟨changes, [], rfl, List.forall_mem_nil _⟩
    · refine ⟨before, later ++ [change], by simp, ?_⟩
      rw [List.forall_mem_append, List.forall_mem_singleton]
      exact ⟨halone, hother⟩

theorem ComesIn.lt_length (h : ComesIn changes source place) : place < changes.length := by
  obtain ⟨_, hplace, -⟩ := h
  exact (List.getElem?_eq_some_iff.1 hplace).1

/-- With one more change, a source comes in where it did before, or by that change. -/
theorem comesIn_concat_iff :
    ComesIn (changes ++ [change]) source place ↔
      ComesIn changes source place ∨
        place = changes.length ∧ ¬ InForce changes source ∧
          ∃ modifier, change = .addModifier modifier ∧ modifier.source = source := by
  rcases Nat.lt_trichotomy place changes.length with hbefore | rfl | hbeyond
  · unfold ComesIn
    rw [List.getElem?_append_left hbefore, List.take_append_of_le_length (Nat.le_of_lt hbefore)]
    simp [Nat.ne_of_lt hbefore]
  · have hnot : ¬ ComesIn changes source changes.length := fun h => Nat.lt_irrefl _ h.lt_length
    unfold ComesIn at hnot ⊢
    rw [List.getElem?_concat_length, List.take_left]
    simp only [hnot, Option.some.injEq, true_and, false_or]
    constructor
    · rintro ⟨modifier, hadded, hsource, hout⟩
      exact ⟨hout, modifier, hadded, hsource⟩
    · rintro ⟨hout, modifier, hadded, hsource⟩
      exact ⟨modifier, hadded, hsource, hout⟩
  · constructor
    · intro h
      have hlength := h.lt_length
      rw [List.length_append, List.length_singleton] at hlength
      omega
    · rintro (h | ⟨rfl, -⟩)
      · exact absurd h.lt_length (Nat.lt_asymm hbeyond)
      · exact absurd hbeyond (Nat.lt_irrefl _)

/-- What is in force does not come in by one more change. -/
theorem ComesInLast.concat (h : ComesInLast changes source place) (hforce : InForce changes source)
    (change : PropertyChange) : ComesInLast (changes ++ [change]) source place where
  comesIn := comesIn_concat_iff.2 (.inl h.comesIn)
  last other hother := by
    rcases comesIn_concat_iff.1 hother with hbefore | ⟨-, hout, -⟩
    · exact h.last other hbefore
    · exact absurd hforce hout

/-- A source that is not in force comes in with its next modifier, and that is the last place. -/
theorem comesInLast_concat_addModifier (hout : ¬ InForce changes modifier.source) :
    ComesInLast (changes ++ [.addModifier modifier]) modifier.source changes.length where
  comesIn := comesIn_concat_iff.2 (.inr ⟨rfl, hout, modifier, rfl, rfl⟩)
  last other hother := by
    have hlength := hother.lt_length
    rw [List.length_append, List.length_singleton] at hlength
    omega

theorem ComesInBefore.concat (h : ComesInBefore changes first second)
    (hfirst : InForce changes first) (hsecond : InForce changes second) (change : PropertyChange) :
    ComesInBefore (changes ++ [change]) first second := by
  obtain ⟨place, hplace, later, hlater, hless⟩ := h
  exact ⟨place, hplace.concat hfirst change, later, hlater.concat hsecond change, hless⟩

end

/-! ## One change -/

/-- The sources of the modifiers, in their order. -/
def sources (property : Property) : List String := property.modifiers.map (·.source)

variable {property other : Property} {change : PropertyChange} {modifier added : Modifier}
  {modifiers : List Modifier} {source : String}

theorem hasModifierFrom_iff :
    property.hasModifierFrom source = true ↔ source ∈ property.sources := by
  simp [hasModifierFrom, sources]

theorem mem_sources_iff :
    source ∈ property.sources ↔ ∃ modifier ∈ property.modifiers, modifier.source = source :=
  List.mem_map

/-- Where no source stands twice, a modifier that is put in drives out the one from its source. -/
theorem mem_putInto_iff (hdistinct : (modifiers.map (·.source)).Nodup) :
    modifier ∈ added.putInto modifiers ↔
      modifier = added ∨ (modifier ∈ modifiers ∧ modifier.source ≠ added.source) := by
  induction modifiers with
  | nil => simp [Modifier.putInto]
  | cons old rest ih =>
    rw [List.map_cons, List.nodup_cons] at hdistinct
    obtain ⟨hold, hrest⟩ := hdistinct
    unfold Modifier.putInto
    by_cases hsame : old.source = added.source
    · -- The others have other sources, as the old one stands alone for its own.
      have hothers : ∀ other ∈ rest, other.source ≠ added.source := by
        intro other hmem heq
        exact hold (List.mem_map.2 ⟨other, hmem, heq.trans hsame.symm⟩)
      rw [if_pos hsame, List.mem_cons, List.mem_cons]
      constructor
      · rintro (hadded | hmem)
        · exact .inl hadded
        · exact .inr ⟨.inr hmem, hothers modifier hmem⟩
      · rintro (hadded | ⟨rfl | hmem, hne⟩)
        · exact .inl hadded
        · exact absurd hsame hne
        · exact .inr hmem
    · rw [if_neg hsame, List.mem_cons, List.mem_cons, ih hrest]
      constructor
      · rintro (rfl | hadded | ⟨hmem, hne⟩)
        · exact .inr ⟨.inl rfl, hsame⟩
        · exact .inl hadded
        · exact .inr ⟨.inr hmem, hne⟩
      · rintro (hadded | ⟨rfl | hmem, hne⟩)
        · exact .inr (.inl hadded)
        · exact .inl rfl
        · exact .inr (.inr ⟨hmem, hne⟩)

theorem putInto_of_new (hnew : added.source ∉ modifiers.map (·.source)) :
    added.putInto modifiers = modifiers ++ [added] := by
  induction modifiers with
  | nil => rfl
  | cons old rest ih =>
    rw [List.map_cons, List.mem_cons, not_or] at hnew
    unfold Modifier.putInto
    rw [if_neg (Ne.symm hnew.1), ih hnew.2, List.cons_append]

theorem map_source_putInto_of_old (hold : added.source ∈ modifiers.map (·.source)) :
    (added.putInto modifiers).map (·.source) = modifiers.map (·.source) := by
  induction modifiers with
  | nil => cases hold
  | cons old rest ih =>
    unfold Modifier.putInto
    by_cases hsame : old.source = added.source
    · rw [if_pos hsame, List.map_cons, List.map_cons, hsame]
    · rw [List.map_cons, List.mem_cons] at hold
      rw [if_neg hsame, List.map_cons, List.map_cons, ih (hold.resolve_left (Ne.symm hsame))]

/-- A change brings in a new source at the end, or no new source at all; those that stay keep their
order. -/
theorem sources_apply_cases (change : PropertyChange) (property : Property) :
    (change.apply property).sources.Sublist property.sources ∨
      ∃ modifier, change = .addModifier modifier ∧ modifier.source ∉ property.sources ∧
        (change.apply property).sources = property.sources ++ [modifier.source] := by
  cases change with
  | addModifier modifier =>
    by_cases hold : modifier.source ∈ property.sources
    · have hsources : (property.addModifier modifier).sources = property.sources :=
        map_source_putInto_of_old hold
      exact .inl (hsources ▸ .refl _)
    · refine .inr ⟨modifier, rfl, hold, ?_⟩
      show (modifier.putInto property.modifiers).map (·.source) = _
      rw [putInto_of_new hold, List.map_append]
      rfl
  | removeModifier source => exact .inl (List.filter_sublist.map _)
  | addBase delta => exact .inl (.refl _)
  | setBase value => exact .inl (.refl _)

theorem nodup_sources_apply (hdistinct : property.sources.Nodup) (change : PropertyChange) :
    (change.apply property).sources.Nodup := by
  rcases sources_apply_cases change property with hkept | ⟨modifier, rfl, hnew, hsources⟩
  · exact hdistinct.sublist hkept
  · rw [hsources, List.nodup_append]
    refine ⟨hdistinct, List.pairwise_singleton _ _, fun source hmem other hother hsame => ?_⟩
    rw [hsame, List.mem_singleton.1 hother] at hmem
    exact hnew hmem

/-- After a change a modifier is there that the change added, or that was there, and the change was
not about its source. -/
theorem mem_modifiers_apply_iff (hdistinct : property.sources.Nodup) :
    modifier ∈ (change.apply property).modifiers ↔
      change = .addModifier modifier ∨
        (modifier ∈ property.modifiers ∧ change.source? ≠ some modifier.source) := by
  cases change with
  | addModifier added =>
    show modifier ∈ added.putInto property.modifiers ↔ _
    simp [mem_putInto_iff hdistinct, PropertyChange.source?, @eq_comm _ added.source,
      @eq_comm _ added]
  | removeModifier source =>
    simp [PropertyChange.apply, removeModifier, PropertyChange.source?, @eq_comm _ source]
  | addBase delta => simp [PropertyChange.apply, PropertyChange.source?]
  | setBase value => simp [PropertyChange.apply, PropertyChange.source?]

/-- A change of the base leaves the modifiers alone. -/
theorem modifiers_apply_of_source?_eq_none (h : change.source? = none) (property : Property) :
    (change.apply property).modifiers = property.modifiers := by
  cases change with
  | addModifier modifier => cases h
  | removeModifier source => cases h
  | addBase delta => rfl
  | setBase value => rfl

/-- A change of modifiers leaves the base alone. -/
theorem base_apply_of_source?_ne_none (h : change.source? ≠ none) (property : Property) :
    (change.apply property).base = property.base := by
  cases change with
  | addModifier modifier => rfl
  | removeModifier source => rfl
  | addBase delta => exact absurd rfl h
  | setBase value => exact absurd rfl h

/-- What a change does to the modifiers depends on nothing but them. -/
theorem modifiers_apply_congr (h : property.modifiers = other.modifiers)
    (change : PropertyChange) :
    (change.apply property).modifiers = (change.apply other).modifiers := by
  cases change <;> simp [PropertyChange.apply, addModifier, removeModifier, h]

/-- What a change does to the base depends on nothing but the base. -/
theorem base_apply_congr (h : property.base = other.base) (change : PropertyChange) :
    (change.apply property).base = (change.apply other).base := by
  cases change <;> simp [PropertyChange.apply, addModifier, removeModifier, h]

/-- To add a modifier from a new source and to remove that source again changes nothing. -/
theorem removeModifier_addModifier_of_new
    (hnew : property.hasModifierFrom modifier.source = false) :
    (property.addModifier modifier).removeModifier modifier.source = property := by
  rw [← Bool.not_eq_true, hasModifierFrom_iff] at hnew
  have hothers : property.modifiers.filter (·.source ≠ modifier.source) = property.modifiers := by
    refine List.filter_eq_self.2 fun other hmem => decide_eq_true fun hsame => ?_
    exact hnew (mem_sources_iff.2 ⟨other, hmem, hsame⟩)
  unfold removeModifier addModifier
  simp only [putInto_of_new hnew, List.filter_append, hothers]
  simp

/-! ## All changes -/

/-- A property that was new and went through changes. -/
def tuned (name : String) (base : Float) (changes : List PropertyChange) : Property :=
  changes.foldl (fun property change => change.apply property) { name, base }

theorem tuned_concat (name : String) (base : Float) (changes : List PropertyChange)
    (change : PropertyChange) :
    tuned name base (changes ++ [change]) = change.apply (tuned name base changes) := by
  unfold tuned
  rw [List.foldl_append]
  rfl

/-- The modifiers of a property are what its history makes of them. -/
structure Follows (property : Property) (changes : List PropertyChange) : Prop where
  /-- No source stands twice. -/
  distinct : property.sources.Nodup
  /-- A source has a modifier just if it was added to after it was last removed. -/
  present : ∀ source, property.hasModifierFrom source = true ↔ InForce changes source
  /-- The modifier of a source is the one that was added last, as it was added. -/
  carried : ∀ modifier, modifier ∈ property.modifiers ↔ AddedLast changes modifier
  /-- Each source came in at some time, and there is a last time. -/
  entered : ∀ source ∈ property.sources, ∃ place, ComesInLast changes source place
  /-- The sources stand in the order in which they came in last. -/
  ordered : property.sources.Pairwise (ComesInBefore changes)

theorem follows_nil (name : String) (base : Float) : (tuned name base []).Follows [] where
  distinct := .nil
  present source := by
    constructor
    · exact nofun
    · rintro ⟨modifier, -, hlast⟩
      exact absurd hlast not_addedLast_nil
  carried modifier := by
    constructor
    · exact nofun
    · exact fun hlast => absurd hlast not_addedLast_nil
  entered := nofun
  ordered := .nil

section

variable {changes : List PropertyChange}

theorem Follows.inForce (h : property.Follows changes) (hmem : source ∈ property.sources) :
    InForce changes source := (h.present source).1 (hasModifierFrom_iff.2 hmem)

theorem Follows.out (h : property.Follows changes) (hnew : source ∉ property.sources) :
    ¬ InForce changes source := fun hforce =>
  hnew (hasModifierFrom_iff.1 ((h.present source).2 hforce))

/-- One more change is followed too. -/
theorem Follows.apply (h : property.Follows changes) (change : PropertyChange) :
    (change.apply property).Follows (changes ++ [change]) := by
  have hcarried : ∀ modifier, modifier ∈ (change.apply property).modifiers ↔
      AddedLast (changes ++ [change]) modifier := by
    intro modifier
    rw [mem_modifiers_apply_iff h.distinct, addedLast_concat_iff, h.carried]
  have hpresent : ∀ source, (change.apply property).hasModifierFrom source = true ↔
      InForce (changes ++ [change]) source := by
    intro source
    rw [hasModifierFrom_iff, mem_sources_iff]
    simp only [hcarried]
    exact exists_congr fun _ => and_comm
  -- Sources that were there before do not come in by the change.
  have hentered : ∀ source ∈ property.sources,
      ∃ place, ComesInLast (changes ++ [change]) source place := by
    intro source hmem
    obtain ⟨place, hplace⟩ := h.entered source hmem
    exact ⟨place, hplace.concat (h.inForce hmem) change⟩
  have hordered : property.sources.Pairwise (ComesInBefore (changes ++ [change])) :=
    h.ordered.imp_of_mem fun hfirst hsecond hless =>
      hless.concat (h.inForce hfirst) (h.inForce hsecond) change
  have hdistinct := nodup_sources_apply h.distinct change
  rcases sources_apply_cases change property with hkept | ⟨modifier, rfl, hnew, hsources⟩
  · exact ⟨hdistinct, hpresent, hcarried, fun source hmem => hentered source (hkept.subset hmem),
      hordered.sublist hkept⟩
  · have hlast := comesInLast_concat_addModifier (h.out hnew)
    refine ⟨hdistinct, hpresent, hcarried, ?_, ?_⟩
    · rw [hsources, List.forall_mem_append, List.forall_mem_singleton]
      exact ⟨hentered, changes.length, hlast⟩
    · rw [hsources, List.pairwise_append]
      refine ⟨hordered, List.pairwise_singleton _ _, fun source hmem other hother => ?_⟩
      obtain rfl := List.mem_singleton.1 hother
      obtain ⟨place, hplace⟩ := h.entered source hmem
      exact ⟨place, hplace.concat (h.inForce hmem) _, changes.length, hlast,
        hplace.comesIn.lt_length⟩

theorem follows_tuned (name : String) (base : Float) (changes : List PropertyChange) :
    (tuned name base changes).Follows changes := by
  induction changes using List.reverseRecOn with
  | nil => exact follows_nil name base
  | append_singleton changes change ih =>
    rw [tuned_concat]
    exact ih.apply change

/-- The modifiers are what the changes of modifiers make of them, whatever is done to the base. -/
theorem modifiers_tuned (name : String) (base : Float) (changes : List PropertyChange) :
    (tuned name base changes).modifiers =
      (tuned name base (changes.filter (·.source?.isSome))).modifiers := by
  induction changes using List.reverseRecOn with
  | nil => rfl
  | append_singleton changes change ih =>
    rw [tuned_concat, List.filter_append]
    cases hsource : change.source? with
    | none =>
      rw [modifiers_apply_of_source?_eq_none hsource, ih]
      simp [hsource]
    | some source =>
      rw [modifiers_apply_congr ih]
      simp [hsource, tuned_concat]

/-- The base is what the changes of the base make of it, whatever is done to the modifiers. -/
theorem base_tuned (name : String) (base : Float) (changes : List PropertyChange) :
    (tuned name base changes).base =
      (tuned name base (changes.filter (·.source?.isNone))).base := by
  induction changes using List.reverseRecOn with
  | nil => rfl
  | append_singleton changes change ih =>
    rw [tuned_concat, List.filter_append]
    cases hsource : change.source? with
    | none =>
      rw [base_apply_congr ih]
      simp [hsource, tuned_concat]
    | some source =>
      rw [base_apply_of_source?_ne_none (by simp [hsource]), ih]
      simp [hsource]

end

/-! ## The law -/

/-- Whatever changes a new property goes through, no source stands twice among its modifiers. A
source has a modifier just if it was added to after it was last removed, and that is the modifier
added last; the sources stand in the order in which they came in last. Changes of the base leave the
modifiers alone and changes of modifiers the base, so each of them is what its own changes make of
it. To add a modifier from a new source and to remove the source again leaves the property as it
was. -/
theorem modifiers_stand_in_order_of_entry (name : String) (base : Float)
    (changes : List PropertyChange) :
    (tuned name base changes).Follows changes ∧
      (∀ change : PropertyChange,
        (change.source? = none → (tuned name base (changes ++ [change])).modifiers =
          (tuned name base changes).modifiers) ∧
        (change.source? ≠ none → (tuned name base (changes ++ [change])).base =
          (tuned name base changes).base)) ∧
      (tuned name base changes).modifiers =
        (tuned name base (changes.filter (·.source?.isSome))).modifiers ∧
      (tuned name base changes).base =
        (tuned name base (changes.filter (·.source?.isNone))).base ∧
      ∀ modifier, (tuned name base changes).hasModifierFrom modifier.source = false →
        tuned name base (changes ++ [.addModifier modifier, .removeModifier modifier.source]) =
          tuned name base changes := by
  refine ⟨follows_tuned name base changes, fun change => ⟨fun hbase => ?_, fun hmodifiers => ?_⟩,
    modifiers_tuned name base changes, base_tuned name base changes, fun modifier hnew => ?_⟩
  · rw [tuned_concat, modifiers_apply_of_source?_eq_none hbase]
  · rw [tuned_concat, base_apply_of_source?_ne_none hmodifiers]
  · rw [List.append_cons, tuned_concat, tuned_concat]
    exact removeModifier_addModifier_of_new hnew

/-- A fire is lit and blown at, the campfire grows in its place, rain sets in, and the bellows come
back behind it. -/
def fireside : List PropertyChange :=
  [.addModifier ⟨"campfire", .flat, 2⟩, .addModifier ⟨"bellows", .percent, 0.5⟩,
    .addModifier ⟨"campfire", .flat, 5⟩, .addBase 3, .removeModifier "bellows",
    .addModifier ⟨"rain", .flat, -1⟩, .addModifier ⟨"bellows", .flat, 4⟩]

theorem bellows_come_back_behind_the_rain :
    (tuned "heat" 1 fireside).modifiers =
        [⟨"campfire", .flat, 5⟩, ⟨"rain", .flat, -1⟩, ⟨"bellows", .flat, 4⟩] ∧
      AddedLast fireside ⟨"campfire", .flat, 5⟩ ∧
      ComesInBefore fireside "campfire" "rain" ∧ ComesInBefore fireside "rain" "bellows" ∧
      (tuned "heat" 1 (fireside ++ [.setBase 7])).modifiers = (tuned "heat" 1 fireside).modifiers ∧
      (tuned "heat" 1 (fireside ++ [.removeModifier "rain"])).base =
        (tuned "heat" 1 fireside).base ∧
      tuned "heat" 1 (fireside ++ [.addModifier ⟨"coal", .flat, 6⟩, .removeModifier "coal"]) =
        tuned "heat" 1 fireside := by
  obtain ⟨hfollows, happart, -, -, hrestored⟩ := modifiers_stand_in_order_of_entry "heat" 1 fireside
  have hmodifiers : (tuned "heat" 1 fireside).modifiers =
      [⟨"campfire", .flat, 5⟩, ⟨"rain", .flat, -1⟩, ⟨"bellows", .flat, 4⟩] := rfl
  have hordered := hfollows.ordered
  unfold sources at hordered
  rw [hmodifiers] at hordered
  obtain ⟨hcampfire, hrest⟩ := List.pairwise_cons.1 hordered
  refine ⟨hmodifiers, (hfollows.carried _).1 (hmodifiers ▸ List.mem_cons_self),
    hcampfire _ List.mem_cons_self, (List.pairwise_cons.1 hrest).1 _ List.mem_cons_self,
    (happart (.setBase 7)).1 rfl, (happart (.removeModifier "rain")).2 nofun, ?_⟩
  exact hrestored ⟨"coal", .flat, 6⟩ rfl

end Property

end CardRules
