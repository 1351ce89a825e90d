import CardRules.Document.Load
import CardRules.Proofs.Declarative
import Mathlib.Algebra.GroupWithZero.Nat

/-!
The table of rules. A rule comes in at the end of the table if it is valid and no rule of any
trigger has its name; otherwise nothing happens. So whatever programs and callbacks do, the table
holds the rules that were accepted, in the order in which they were, and a table that keeps the
rules of each trigger by themselves and counts them holds the same.
-/

namespace CardRules

open EngineM

/-! ## Rows of rules -/

/-- Rules in the rows of their triggers are the rules of the whole list. -/
theorem perm_flatMap_filter_trigger {kinds : List EventKind} (hkinds : kinds.Nodup)
    {rules : List Rule} (hrules : ∀ rule ∈ rules, rule.trigger ∈ kinds) :
    (kinds.flatMap fun kind => rules.filter (·.trigger = kind)).Perm rules := by
  induction kinds generalizing rules with
  | nil =>
    have hnil : rules = [] := List.eq_nil_iff_forall_not_mem.2 fun rule hmem => by
      simpa using hrules rule hmem
    rw [hnil]
    exact .refl []
  | cons kind rest ih =>
    obtain ⟨hnotMem, hrest⟩ := List.nodup_cons.1 hkinds
    let others := rules.filter fun rule => !decide (rule.trigger = kind)
    have hothers : ∀ rule ∈ others, rule.trigger ∈ rest := by
      intro rule hmem
      obtain ⟨hlisted, hother⟩ := List.mem_filter.1 hmem
      have hne : rule.trigger ≠ kind := by simpa using hother
      exact (List.mem_cons.1 (hrules rule hlisted)).resolve_left hne
    -- The rows that follow do not hold rules of the first kind.
    have hrows : ∀ later ∈ rest, rules.filter (·.trigger = later) =
        others.filter (·.trigger = later) := by
      intro later hlater
      have hne : later ≠ kind := by
        rintro rfl
        exact hnotMem hlater
      rw [List.filter_filter]
      apply List.filter_congr
      intro rule _
      by_cases htrigger : rule.trigger = later
      · simp [htrigger, hne]
      · simp [htrigger]
    rw [List.flatMap_cons, List.flatMap_congr hrows]
    exact ((ih hrest hothers).append_left _).trans (List.filter_append_perm _ rules)

/-- A table that keeps the rules of each trigger in a row of their own, and beside the rows the
number of all rules. -/
structure Shelves where
  row : EventKind → List Rule := fun _ => []
  count : Nat := 0

namespace Shelves

/-- Whether a rule of any trigger has a name. -/
def hasName (shelves : Shelves) (name : String) : Bool :=
  EventKind.all.any fun kind => (shelves.row kind).any (·.name = name)

/-- Puts a rule at the end of the row of its trigger. It must be valid, and no rule in any row may
have its name. -/
def register (shelves : Shelves) (rule : Rule) : Except Error Shelves := do
  rule.validate
  if shelves.hasName rule.name then throw (.duplicateRule rule.name)
  return {
    row := fun kind =>
      if kind = rule.trigger then shelves.row kind ++ [rule] else shelves.row kind
    count := shelves.count + 1 }

/-- The table after a rule was handed in. One that is refused leaves it as it is. -/
def handIn (shelves : Shelves) (rule : Rule) : Shelves :=
  match shelves.register rule with
  | .ok after => after
  | .error _ => shelves

end Shelves

namespace Engine

variable {engine middle after origin : Engine} {rule : Rule} {rules taken : List Rule}

/-! ## One rule -/

/-- The number of rules in the table. -/
def ruleCount (engine : Engine) : Nat := engine.rules.length

/-- The table of an engine, row by row. -/
def shelves (engine : Engine) : Shelves := ⟨engine.rulesFor, engine.ruleCount⟩

/-- The engine with more rules at the end of its table. -/
def withRules (engine : Engine) (rules : List Rule) : Engine :=
  { engine with rules := engine.rules ++ rules }

/-- Why a rule is not accepted: it has a fault, or a rule of any trigger has its name. -/
def refusal? (engine : Engine) (rule : Rule) : Option Error :=
  match rule.fault? with
  | some fault => some (.invalidRule rule.name fault)
  | none => if engine.rules.any (·.name = rule.name) then some (.duplicateRule rule.name) else none

theorem registerRule_eq (engine : Engine) (rule : Rule) :
    engine.registerRule rule =
      match engine.refusal? rule with
      | some error => .error error
      | none => .ok (engine.withRules [rule]) := by
  unfold registerRule refusal? Rule.validate
  cases rule.fault? with
  | some fault => rfl
  | none =>
    by_cases hname : engine.rules.any (·.name = rule.name) = true
    · simp only [hname, if_true]
      rfl
    · simp only [hname]
      rfl

theorem refusal?_eq_none_iff :
    engine.refusal? rule = none ↔
      rule.validate = .ok () ∧ ∀ other ∈ engine.rules, other.name ≠ rule.name := by
  unfold refusal? Rule.validate
  cases rule.fault? with
  | some fault => simp
  | none => simp

/-- A rule that is refused leaves everything as it is, and one that is accepted comes last. -/
theorem start_registerRule (invoke : Invoker) (engine : Engine) (rule : Rule) :
    (perform invoke (.registerRule rule)).start engine =
      match engine.refusal? rule with
      | some error => some (.error error, engine)
      | none => some (.ok .done, engine.withRules [rule]) := by
  show (addRule rule >>= fun _ => pure Answer.done).start engine = _
  rw [start_bind, start_addRule, registerRule_eq]
  cases engine.refusal? rule with
  | some error => rfl
  | none => rfl

theorem mem_rulesFor_iff {kind : EventKind} :
    rule ∈ engine.rulesFor kind ↔ rule ∈ engine.rules ∧ rule.trigger = kind := by
  unfold rulesFor
  rw [List.mem_filter, decide_eq_true_iff]

/-- The rows together hold the table. -/
theorem perm_rulesFor (engine : Engine) :
    (EventKind.all.flatMap engine.rulesFor).Perm engine.rules := by
  have hall : ∀ rule ∈ engine.rules, rule.trigger ∈ EventKind.all := by
    intro rule _
    cases rule.trigger <;> decide
  exact perm_flatMap_filter_trigger (by decide) hall

theorem hasName_shelves (engine : Engine) (name : String) :
    engine.shelves.hasName name = engine.rules.any (·.name = name) := by
  rw [← engine.perm_rulesFor.any_eq, List.any_flatMap]
  rfl

/-- A table in rows accepts the rules that the table of the engine does, refuses the others for the
same reasons, and holds the same rules afterwards. -/
theorem shelves_registerRule (engine : Engine) (rule : Rule) :
    engine.shelves.register rule = (engine.registerRule rule).map shelves := by
  unfold Shelves.register registerRule
  rw [hasName_shelves]
  cases rule.validate with
  | error error => rfl
  | ok =>
    cases engine.rules.any (·.name = rule.name) with
    | true => rfl
    | false =>
      show Except.ok _ = Except.ok _
      congr 1
      unfold shelves rulesFor ruleCount
      congr 1
      · funext kind
        rw [List.filter_append]
        by_cases hkind : kind = rule.trigger
        · simp [hkind]
        · simp [hkind, Ne.symm hkind]
      · simp

/-! ## Rules in a row -/

/-- Rules are accepted one after the other. -/
def Admits : Engine → List Rule → Prop
  | _, [] => True
  | engine, rule :: rest => engine.refusal? rule = none ∧ (engine.withRules [rule]).Admits rest

theorem withRules_append (engine : Engine) (rules more : List Rule) :
    (engine.withRules rules).withRules more = engine.withRules (rules ++ more) := by
  unfold withRules
  rw [List.append_assoc]

/-- Rules are accepted one after the other just if they are valid and all names are new. -/
theorem admits_iff :
    engine.Admits rules ↔
      (∀ rule ∈ rules, rule.validate = .ok ()) ∧
        (∀ rule ∈ rules, ∀ other ∈ engine.rules, other.name ≠ rule.name) ∧
        (rules.map (·.name)).Nodup := by
  induction rules generalizing engine with
  | nil => simp [Admits]
  | cons rule rest ih =>
    rw [Admits, refusal?_eq_none_iff, ih]
    simp only [withRules, List.forall_mem_cons, List.forall_mem_append, List.map_cons,
      List.nodup_cons, List.mem_map, not_exists, not_and]
    constructor
    · rintro ⟨⟨hvalid, hnew⟩, hrest, hnames, hnodup⟩
      refine ⟨⟨hvalid, hrest⟩, ⟨hnew, fun later hmem => (hnames later hmem).1⟩, ?_, hnodup⟩
      intro later hmem heq
      exact (hnames later hmem).2.1 heq.symm
    · rintro ⟨⟨hvalid, hrest⟩, ⟨hnew, hnames⟩, hfirst, hnodup⟩
      refine ⟨⟨hvalid, hnew⟩, hrest, fun later hmem => ⟨hnames later hmem, ?_⟩, hnodup⟩
      refine ⟨fun heq => hfirst later hmem heq.symm, ?_⟩
      simp

/-- Rules are registered in order, up to the first that is refused; those before it stay. -/
theorem start_forM_addRule (engine : Engine) (rules : List Rule) :
    ∃ taken rest, rules = taken ++ rest ∧ engine.Admits taken ∧
      ((rest = [] ∧ (rules.forM addRule).start engine = some (.ok (), engine.withRules taken)) ∨
        ∃ refused more error, rest = refused :: more ∧
          (engine.withRules taken).refusal? refused = some error ∧
          (rules.forM addRule).start engine = some (.error error, engine.withRules taken)) := by
  induction rules generalizing engine with
  | nil =>
    refine ⟨[], [], rfl, trivial, .inl ⟨rfl, ?_⟩⟩
    unfold withRules
    rw [List.append_nil]
    rfl
  | cons rule rest ih =>
    have hstart : ((rule :: rest).forM addRule).start engine =
        (addRule rule >>= fun _ => rest.forM addRule).start engine := rfl
    rw [hstart, start_bind, start_addRule, registerRule_eq]
    cases hrefusal : engine.refusal? rule with
    | some error =>
      refine ⟨[], rule :: rest, rfl, trivial, .inr ⟨rule, rest, error, rfl, ?_⟩⟩
      unfold withRules
      rw [List.append_nil]
      exact ⟨hrefusal, rfl⟩
    | none =>
      obtain ⟨taken, left, rfl, hadmits, hend⟩ := ih (engine.withRules [rule])
      rw [withRules_append, List.singleton_append] at hend
      exact ⟨rule :: taken, left, rfl, ⟨hrefusal, hadmits⟩, hend⟩

theorem start_registerRules (invoke : Invoker) (engine : Engine) (rules : List Rule) :
    ∃ taken rest, rules = taken ++ rest ∧ engine.Admits taken ∧
      ((rest = [] ∧ (perform invoke (.registerRules rules)).start engine =
          some (.ok .done, engine.withRules taken)) ∨
        ∃ refused more error, rest = refused :: more ∧
          (engine.withRules taken).refusal? refused = some error ∧
          (perform invoke (.registerRules rules)).start engine =
            some (.error error, engine.withRules taken)) := by
  have hstart : (perform invoke (.registerRules rules)).start engine =
      (rules.forM addRule >>= fun _ => pure Answer.done).start engine := rfl
  obtain ⟨taken, rest, hsplit, hadmits, hend⟩ := start_forM_addRule engine rules
  refine ⟨taken, rest, hsplit, hadmits, ?_⟩
  rw [hstart, start_bind]
  rcases hend with ⟨hrest, hok⟩ | ⟨refused, more, error, hrest, hrefusal, herror⟩
  · rw [hok]
    exact .inl ⟨hrest, rfl⟩
  · rw [herror]
    exact .inr ⟨refused, more, error, hrest, hrefusal, rfl⟩

/-- All of the rules are registered just if each of them is accepted at its turn. -/
theorem start_registerRules_eq_ok_iff (invoke : Invoker) (engine : Engine) (rules : List Rule) :
    (∃ answer after, (perform invoke (.registerRules rules)).start engine =
        some (.ok answer, after)) ↔ engine.Admits rules := by
  obtain ⟨taken, rest, rfl, hadmits, hend⟩ := start_registerRules invoke engine rules
  rcases hend with ⟨rfl, hok⟩ | ⟨refused, more, error, rfl, hrefusal, herror⟩
  · rw [List.append_nil] at hok ⊢
    exact ⟨fun _ => hadmits, fun _ => ⟨_, _, hok⟩⟩
  · constructor
    · rintro ⟨answer, after, hok⟩
      rw [herror] at hok
      cases hok
    · intro hall
      exfalso
      obtain ⟨hvalid, hnew, hnames⟩ := admits_iff.1 hall
      have hnone : (engine.withRules taken).refusal? refused = none := by
        refine refusal?_eq_none_iff.2 ⟨hvalid refused (by simp), fun other hmem heq => ?_⟩
        rcases List.mem_append.1 hmem with hold | hearlier
        · exact hnew refused (by simp) other hold heq
        · rw [List.map_append, List.nodup_append] at hnames
          exact hnames.2.2 other.name (List.mem_map_of_mem hearlier) refused.name (by simp) heq
      rw [hnone] at hrefusal
      cases hrefusal

end Engine

/-! ## Rules that are read from a text -/

theorem Rule.validate_of_forM {rules : List Rule} (h : rules.forM Rule.validate = .ok ()) :
    ∀ rule ∈ rules, rule.validate = .ok () := by
  induction rules with
  | nil => simp
  | cons rule rest ih =>
    have hboth : (rule.validate >>= fun _ => rest.forM Rule.validate) = .ok () := h
    cases hvalid : rule.validate with
    | error error =>
      rw [hvalid] at hboth
      cases hboth
    | ok value =>
      rw [hvalid] at hboth
      intro other hmem
      rcases List.mem_cons.1 hmem with rfl | hlater
      · exact hvalid
      · exact ih hboth other hlater

/-- Rules that are read from a text are valid. -/
theorem Document.validate_of_loadRules {source : String} {rules : List Rule}
    (h : loadRules source = .ok rules) : ∀ rule ∈ rules, rule.validate = .ok () := by
  have hread : (do
      let read ← ofToml rules? source
      read.forM Rule.validate
      return read) = Except.ok rules := h
  cases htext : ofToml rules? source with
  | error error =>
    rw [htext] at hread
    cases hread
  | ok read =>
    have hchecked : (read.forM Rule.validate >>= fun _ => pure read) = Except.ok rules := by
      rw [htext] at hread
      exact hread
    cases hvalid : read.forM Rule.validate with
    | error error =>
      rw [hvalid] at hchecked
      cases hchecked
    | ok value =>
      rw [hvalid] at hchecked
      cases hchecked
      exact Rule.validate_of_forM hvalid

/-! ## What happens to the table -/

namespace Engine

variable {allowed : Operation → Prop} {engine middle after origin : Engine} {rule : Rule}
  {rules : List Rule}

/-- A rule that was handed in, and what came of it. -/
structure Call where
  rule : Rule
  outcome : Except Error Unit

/-- The rules that were accepted, in order. -/
def accepted (calls : List Call) : List Rule := (calls.filter (·.outcome.isOk)).map (·.rule)

/-- What became of an engine step by step, and the rules that were handed in on the way. Only rules
that operations of a sort ask to register are handed in; every other step leaves the table alone. -/
inductive Ledger (allowed : Operation → Prop) (origin : Engine) : List Call → Engine → Prop
  | start : Ledger allowed origin [] origin
  | handIn {calls : List Call} {middle after : Engine} {rule : Rule} {outcome : Except Error Unit}
      (before : Ledger allowed origin calls middle) (asked : rule.AskedFor allowed)
      (answered : (addRule rule).start middle = some (outcome, after)) :
      Ledger allowed origin (calls ++ [⟨rule, outcome⟩]) after
  | meanwhile {calls : List Call} {middle after : Engine}
      (before : Ledger allowed origin calls middle) (step : Step allowed middle after)
      (same : after.rules = middle.rules) : Ledger allowed origin calls after

/-- The table of an engine is what was accepted of the rules that were handed in. All rules are
valid and no two of any triggers have the same name; those of one trigger stand in the order in
which they were accepted; their number is that of all rows together; and a table in rows, into which
the same rules were handed, holds the same. -/
structure Holds (engine : Engine) (calls : List Call) : Prop where
  valid : ∀ kind, ∀ rule ∈ engine.rulesFor kind, rule.validate = .ok ()
  distinct : ((EventKind.all.flatMap engine.rulesFor).map (·.name)).Nodup
  order : ∀ kind, engine.rulesFor kind = (accepted calls).filter (·.trigger = kind)
  count : engine.ruleCount = (EventKind.all.map fun kind => (engine.rulesFor kind).length).sum
  shelved : engine.shelves = (calls.map (·.rule)).foldl Shelves.handIn {}

/-- Whether a rule is accepted depends on the table only. -/
theorem refusal?_congr (h : after.rules = engine.rules) (rule : Rule) :
    after.refusal? rule = engine.refusal? rule := by
  unfold refusal?
  rw [h]

theorem shelves_congr (h : after.rules = engine.rules) : after.shelves = engine.shelves := by
  unfold shelves rulesFor ruleCount
  rw [h]

theorem admits_append_singleton (engine : Engine) (rules : List Rule) (rule : Rule) :
    engine.Admits (rules ++ [rule]) ↔
      engine.Admits rules ∧ (engine.withRules rules).refusal? rule = none := by
  induction rules generalizing engine with
  | nil =>
    have hsame : (engine.withRules []).rules = engine.rules := List.append_nil engine.rules
    rw [refusal?_congr hsame]
    simp [Admits]
  | cons first rest ih =>
    rw [List.cons_append, Admits, Admits, ih, withRules_append, List.singleton_append, and_assoc]

/-- A rule that is handed in is refused, and nothing changes, or it is accepted and comes last. -/
theorem start_addRule_cases {outcome : Except Error Unit}
    (h : (addRule rule).start engine = some (outcome, after)) :
    (∃ error, engine.refusal? rule = some error ∧ outcome = .error error ∧ after = engine) ∨
      (engine.refusal? rule = none ∧ outcome = .ok () ∧ after = engine.withRules [rule]) := by
  rw [start_addRule, registerRule_eq] at h
  cases hrefusal : engine.refusal? rule with
  | some error =>
    rw [hrefusal] at h
    cases h
    exact .inl ⟨error, rfl, rfl, rfl⟩
  | none =>
    rw [hrefusal] at h
    cases h
    exact .inr ⟨rfl, rfl, rfl⟩

/-- A table in rows takes part in whatever becomes of a rule that is handed in. -/
theorem handIn_shelves {outcome : Except Error Unit}
    (h : (addRule rule).start engine = some (outcome, after)) :
    engine.shelves.handIn rule = after.shelves := by
  unfold Shelves.handIn
  rw [shelves_registerRule, registerRule_eq]
  rcases start_addRule_cases h with ⟨error, hrefusal, -, rfl⟩ | ⟨hrefusal, -, rfl⟩
  · rw [hrefusal]
    rfl
  · rw [hrefusal]
    rfl

namespace Ledger

variable {calls : List Call}

/-- The table holds what it held before and what was accepted since. -/
theorem rules_eq (h : Ledger allowed origin calls engine) :
    engine.rules = origin.rules ++ accepted calls := by
  induction h with
  | start => exact (List.append_nil _).symm
  | @handIn calls middle after rule outcome _ _ hanswered ih =>
    unfold accepted at ih ⊢
    rw [List.filter_append, List.map_append]
    rcases start_addRule_cases hanswered with ⟨error, -, rfl, rfl⟩ | ⟨-, rfl, rfl⟩
    · simpa [Except.isOk, Except.toBool] using ih
    · unfold withRules
      simp [Except.isOk, Except.toBool, ih]
  | meanwhile _ _ hsame ih => exact hsame.trans ih

/-- Each rule in the table was accepted at its turn. -/
theorem admits (h : Ledger allowed origin calls engine) : origin.Admits (accepted calls) := by
  induction h with
  | start => trivial
  | @handIn calls middle after rule outcome before _ hanswered ih =>
    unfold accepted at ih ⊢
    rw [List.filter_append, List.map_append]
    rcases start_addRule_cases hanswered with ⟨error, -, rfl, rfl⟩ | ⟨hnone, rfl, rfl⟩
    · simpa [Except.isOk, Except.toBool] using ih
    · have hturn : (origin.withRules (accepted calls)).refusal? rule = none := by
        rw [← hnone]
        exact refusal?_congr before.rules_eq.symm rule
      exact (admits_append_singleton origin _ rule).2 ⟨ih, hturn⟩
  | meanwhile _ _ _ ih => exact ih

/-- A table in rows into which the same rules were handed holds the same. -/
theorem shelves_eq (h : Ledger allowed origin calls engine) :
    engine.shelves = (calls.map (·.rule)).foldl Shelves.handIn origin.shelves := by
  induction h with
  | start => rfl
  | handIn _ _ hanswered ih =>
    rw [List.map_append, List.foldl_append, ← ih]
    exact (handIn_shelves hanswered).symm
  | meanwhile _ _ hsame ih => exact (shelves_congr hsame).trans ih

theorem holds (h : Ledger allowed origin calls engine) (hempty : origin.rules = []) :
    engine.Holds calls := by
  obtain ⟨hvalid, -, hnames⟩ := admits_iff.1 h.admits
  have hrules : engine.rules = accepted calls := by
    rw [h.rules_eq, hempty, List.nil_append]
  have hperm := engine.perm_rulesFor
  refine ⟨fun kind rule hmem => ?_, ?_, fun kind => ?_, ?_, ?_⟩
  · apply hvalid
    rw [← hrules]
    exact (mem_rulesFor_iff.1 hmem).1
  · rw [(hperm.map _).nodup_iff, hrules]
    exact hnames
  · unfold rulesFor
    rw [hrules]
  · unfold ruleCount
    rw [← hperm.length_eq, List.length_flatMap]
  · have hnone : origin.shelves = {} := by
      unfold shelves rulesFor ruleCount
      rw [hempty]
      rfl
    rw [h.shelves_eq, hnone]

end Ledger

/-- Whatever happens to an engine, the ledger can be kept. -/
theorem ledger_stays (origin : Engine) :
    Stays allowed fun here => ∃ calls, Ledger allowed origin calls here := by
  rintro engine after hstep ⟨calls, hledger⟩
  rcases hstep.rules_eq_or_registers with hsame | ⟨rule, hasked, haccepted⟩
  · exact ⟨calls, .meanwhile hledger hstep hsame⟩
  · refine ⟨calls ++ [⟨rule, .ok ()⟩], .handIn hledger hasked ?_⟩
    rw [start_addRule, haccepted]

/-- The table of an engine holds what was accepted, at each moment of every run and however rules
are handed in, by programs or by callbacks while events are processed. A rule that is refused
changes nothing. Of rules that are handed in together those before the first one that is refused
come into the table, and no others. Rules that are read from a text all come into an empty table
just if their names are distinct. -/
theorem rule_table_holds_what_was_accepted {α : Type} {callbacks : Callbacks}
    {program : Program α} (config : Config) (factory : Option Factory) (depth : Nat)
    (hcallbacks : callbacks.AskOnly allowed) (hprogram : program.AsksOnly allowed) :
    Upholds (fun here => ∃ calls, Ledger allowed (new config factory) calls here) callbacks depth
        program (new config factory) ∧
      (∀ calls here, Ledger allowed (new config factory) calls here → here.Holds calls) ∧
      (∀ invoke engine rule, (perform invoke (.registerRule rule)).start engine =
        match engine.refusal? rule with
        | some error => some (.error error, engine)
        | none => some (.ok .done, engine.withRules [rule])) ∧
      (∀ invoke engine rules, ∃ taken rest, rules = taken ++ rest ∧ engine.Admits taken ∧
        ((rest = [] ∧ (perform invoke (.registerRules rules)).start engine =
            some (.ok .done, engine.withRules taken)) ∨
          ∃ refused more error, rest = refused :: more ∧
            (engine.withRules taken).refusal? refused = some error ∧
            (perform invoke (.registerRules rules)).start engine =
              some (.error error, engine.withRules taken))) ∧
      ∀ source rules, Document.loadRules source = .ok rules → ∀ invoke engine, engine.rules = [] →
        ((∃ answer after, (perform invoke (.registerRules rules)).start engine =
          some (.ok answer, after)) ↔ (rules.map (·.name)).Nodup) := by
  refine ⟨?_, fun _ _ hledger => hledger.holds rfl, start_registerRule, start_registerRules, ?_⟩
  · exact upholds_of_stays (ledger_stays _) (fun _ h => h) hcallbacks depth hprogram ⟨[], .start⟩
  · intro source rules hload invoke engine hempty
    have hvalid := Document.validate_of_loadRules hload
    rw [start_registerRules_eq_ok_iff, admits_iff, hempty]
    simp only [List.not_mem_nil, false_imp_iff, implies_true, true_and]
    exact and_iff_right hvalid

/-- A rule that teaches is handed in twice, then three rules of which the second has no name; and
the bench is used. -/
def lessons : Program Unit :=
  .perform (.addCard { id := "bench", category := .location }) fun _ =>
  .perform (.registerRule { name := "teach", trigger := .use, effects := [.invoke ⟨"teach"⟩] })
    fun _ =>
  .perform (.registerRule { name := "teach", trigger := .tick }) fun _ =>
  .perform (.registerRules [{ name := "glow", trigger := .tick }, { name := " ", trigger := .use },
    { name := "fade", trigger := .tick }]) fun _ =>
  .perform (.use ⟨0⟩) fun _ => .done ()

/-- Hands in two rules, the second of them under a name that is taken. -/
def teaching : Callbacks := fun _ _ =>
  .perform (.registerRule { name := "learn", trigger := .use }) fun _ =>
  .perform (.registerRule { name := "glow", trigger := .use }) fun _ => .done ()

/-- A text with two rules of one name. -/
def echoingRules : String :=
  "[[rules]]\nname = \"echo\"\ntrigger = \"use\"\n[[rules]]\nname = \"echo\"\ntrigger = \"tick\"\n"

/-- What is learnt while the bench is used comes after what was taught before. -/
theorem lessons_are_kept_in_order :
    (∃ result after calls, run teaching 1 lessons (new {}) = some (result, after) ∧
        after.Holds calls ∧ (after.rulesFor .use).map (·.name) = ["teach", "learn"] ∧
        (after.rulesFor .tick).map (·.name) = ["glow"] ∧ after.ruleCount = 3) ∧
      ∃ rules, Document.loadRules echoingRules = .ok rules ∧
        ¬ ∃ answer after, (perform (invoker teaching 0) (.registerRules rules)).start (new {}) =
          some (.ok answer, after) := by
  obtain ⟨hupholds, hholds, -, -, hloads⟩ :=
    rule_table_holds_what_was_accepted {} none 1 teaching.askOnly_true lessons.asksOnly_true
  constructor
  · have hfacts : (run teaching 1 lessons (new {})).map (fun (_, after) =>
        ((after.rulesFor .use).map (·.name), (after.rulesFor .tick).map (·.name),
          after.ruleCount)) = some (["teach", "learn"], ["glow"], 3) := by
      decide +kernel
    obtain ⟨⟨result, after⟩, hrun, hvalues⟩ := Option.map_eq_some_iff.1 hfacts
    simp only [Prod.mk.injEq] at hvalues
    obtain ⟨calls, hledger⟩ := hupholds.final hrun
    exact ⟨result, after, calls, hrun, hholds calls after hledger, hvalues⟩
  · have hnames : (Document.loadRules echoingRules).toOption.map (·.map (·.name)) =
        some ["echo", "echo"] := by
      decide +kernel
    cases hload : Document.loadRules echoingRules with
    | error error =>
      rw [hload] at hnames
      cases hnames
    | ok rules =>
      rw [hload] at hnames
      have hsame : rules.map (·.name) = ["echo", "echo"] := Option.some.inj hnames
      refine ⟨rules, rfl, ?_⟩
      rw [hloads echoingRules rules hload (invoker teaching 0) (new {}) rfl, hsame]
      decide

end Engine

end CardRules
