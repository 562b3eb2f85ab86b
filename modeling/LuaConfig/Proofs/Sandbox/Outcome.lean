/-
What is reported of a script.

Whether a run can be prepared depends on the options alone.  If it can, and ends, what is reported is
decided by the way the run goes: whether its instructions are found to be spent, whether it fails,
and whether the table is there that its record cannot do without.  The latter is looked at when the
run has ended; a script that has left a finalizer to the collector can still take the table away.

Main statements:
* `parseFor_result` — when each kind of result is reported;
* `parseFor_result_finalized` — a script that takes its table away, and one that does not end.
-/
import LuaConfig.Proofs.Lua.Limits
import LuaConfig.Proofs.Sandbox.Collection
import LuaConfig.Proofs.Sandbox.Endless
import LuaConfig.Proofs.Script.Required

namespace LuaConfig

open Lua Lua.Machine

namespace Lua.Machine

/-- A run from a state ends in the given way. -/
def Comes (limits : Limits) (start : Machine × Step) (final : Final) : Prop :=
  ∃ b, Reaches limits start b ∧ step limits b.1 b.2 = .error final

variable {limits : Limits} {start : Machine × Step} {final final' : Final}

theorem comes_of_run {fuel : Nat} (hrun : run limits fuel start.1 start.2 = some final) :
    Comes limits start final :=
  ends_of_run hrun

theorem Comes.exists_run (h : Comes limits start final) :
    ∃ fuel, run limits fuel start.1 start.2 = some final := by
  obtain ⟨b, hb, hend⟩ := h
  exact run_of_ends hb hend

theorem Comes.unique (h : Comes limits start final) (h' : Comes limits start final') :
    final = final' := by
  obtain ⟨fuel, hrun⟩ := h.exists_run
  obtain ⟨fuel', hrun'⟩ := h'.exists_run
  exact run_unique hrun hrun'

end Lua.Machine

namespace Sandbox

/-- The script is read and run, and its run ends in the given way. -/
def RunsTo (options : SandboxOptions) (root : Root) (chunk source : String) (choices : Choices)
    (final : Final) : Prop :=
  ∃ start, start? options root chunk source choices = some start ∧
    Comes (limits options) start final

/-- At some time during the run its instructions are found to be spent. -/
def Spent (options : SandboxOptions) (root : Root) (chunk source : String) (choices : Choices) :
    Prop :=
  ∃ start a, start? options root chunk source choices = some start ∧
    Reaches (limits options) start a ∧ Spends (limits options) a

/-- The script cannot be read, or its run ends in a fault. -/
def Fails (options : SandboxOptions) (root : Root) (chunk source : String) (choices : Choices) :
    Prop :=
  (∃ cause, read root chunk source = .error cause) ∨
    ∃ final fault, RunsTo options root chunk source choices final ∧ final.outcome = .error fault

/-- The run of the script ends, if there is one. -/
def Ends (options : SandboxOptions) (root : Root) (chunk source : String) (choices : Choices) :
    Prop :=
  ∀ start, start? options root chunk source choices = some start →
    ∃ final, Comes (limits options) start final

/-! ### Ways in which a run goes -/

section Ways

variable {options : SandboxOptions} {root : Root} {chunk source : String} {choices : Choices}
  {start : Machine × Step} {final : Final}

theorem runsTo_iff (hstart : start? options root chunk source choices = some start)
    (hfinal : Comes (limits options) start final) (final' : Final) :
    RunsTo options root chunk source choices final' ↔ final' = final := by
  constructor
  · rintro ⟨start', hstart', hfinal'⟩
    rw [hstart] at hstart'
    cases hstart'
    exact hfinal'.unique hfinal
  · rintro rfl
    exact ⟨start, hstart, hfinal⟩

/-- The instructions are found to be spent if and only if the run ends as one where they are. -/
theorem spent_iff (hstart : start? options root chunk source choices = some start)
    (hfinal : Comes (limits options) start final) :
    Spent options root chunk source choices ↔ final.exhausted = true := by
  obtain ⟨b, hb, hend⟩ := hfinal
  rw [final_exhausted_iff (start_meter hstart) hb hend]
  constructor
  · rintro ⟨start', a, hstart', ha, hspends⟩
    rw [hstart] at hstart'
    cases hstart'
    exact ⟨a, ha, hspends⟩
  · rintro ⟨a, ha, hspends⟩
    exact ⟨start, a, hstart, ha, hspends⟩

theorem fails_iff (hstart : start? options root chunk source choices = some start)
    (hfinal : Comes (limits options) start final) :
    Fails options root chunk source choices ↔ ∃ fault, final.outcome = .error fault := by
  obtain ⟨-, code, hcode⟩ := read_of_start hstart
  simp [Fails, hcode, runsTo_iff hstart hfinal]

/-- A script that is not run does not spend instructions, and does not run to an end. -/
theorem not_spent_of_none (hstart : start? options root chunk source choices = none) :
    ¬ Spent options root chunk source choices := by
  rintro ⟨start, a, hstart', -⟩
  rw [hstart] at hstart'
  cases hstart'

theorem not_runsTo_of_none (hstart : start? options root chunk source choices = none) (final : Final) :
    ¬ RunsTo options root chunk source choices final := by
  rintro ⟨start, hstart', -⟩
  rw [hstart] at hstart'
  cases hstart'

/-- A script has an outcome if its run ends. -/
theorem runFor_iff_ends :
    (∃ fuel o, runFor fuel options root chunk source choices = some o) ↔
      isCramped options = true ∨ Ends options root chunk source choices := by
  constructor
  · rintro ⟨fuel, o, h⟩
    refine .inr fun start hstart => ?_
    obtain ⟨final, hrun, -⟩ := run_of_runFor hstart h
    exact ⟨final, comes_of_run hrun⟩
  · intro hends
    cases hroom : isCramped options with
    | true =>
      refine ⟨0, ?_⟩
      rw [runFor_of_cramped hroom]
      split <;> exact ⟨_, rfl⟩
    | false =>
      rw [hroom] at hends
      obtain h | hends := hends
      · cases h
      cases hread : read root chunk source with
      | error cause => exact ⟨0, _, runFor_of_error hroom hread⟩
      | ok code =>
        have hstart := start?_of_read choices hroom hread
        obtain ⟨final, hfinal⟩ := hends _ hstart
        obtain ⟨fuel, hrun⟩ := hfinal.exists_run
        exact ⟨fuel, _, runFor_of_run hstart hrun⟩

/-- Instructions are spent only where they are limited. -/
theorem limit_of_spent (h : Spent options root chunk source choices) :
    ∃ limit, options.instructionLimit = some limit := by
  obtain ⟨start, a, -, -, hspends⟩ := h
  exact instructions_of_spends hspends

end Ways

end Sandbox

open Sandbox

namespace RecordKind

/-- The value that a record of a kind cannot do without: the first value that the script has
returned, or what stands in its globals. -/
def requiredOf : RecordKind → Store → List Value → Value
  | level, _, values => values.headD .nil
  | modInfo, σ, _ => σ.rawGet σ.globals (.ofString ModInfo.optionsKey)

/-- The run of a script ends without a fault; is the table there that its record cannot do
without? -/
def Completes (kind : RecordKind) (options : SandboxOptions) (source : String) (choices : Choices)
    (found : Bool) : Prop :=
  ∃ final values, RunsTo options kind.root kind.chunk source choices final ∧
    final.outcome = .ok values ∧ (kind.requiredOf final.store values).isTable = found

variable {kind : RecordKind} {options : SandboxOptions} {source : String} {choices : Choices}
  {fuel : Nat} {o o' : Outcome} {p : Parsed Record}

theorem required_root (kind : RecordKind) (σ : Store) (values : List Value) :
    kind.required σ (kind.root.value σ values) = kind.requiredOf σ values := by
  cases kind with
  | level => rfl
  | modInfo => exact Reading.field_table σ σ.globals ModInfo.optionsKey

section Report

variable {start : Machine × Step} {final : Final}

/-- What is read of a run that has kept to its limits and ended without a fault. -/
theorem result_of_values {values : List Value} (hroot : o.root = .ok (kind.root.value o.store values)) :
    if (kind.requiredOf o.store values).isTable then ∃ r, (kind.ofOutcome o).result = .ok r
    else (kind.ofOutcome o).result = .error (.missingSection kind.requiredName) := by
  rw [← required_root]
  split
  · next htable =>
    refine result_of_required hroot ?_ htable
    cases kind with
    | level => exact htable
    | modInfo => rfl
  · next htable =>
    refine result_of_missing hroot (fun h => ?_) (by simpa using htable)
    subst h
    rfl

theorem completes_iff (hstart : start? options kind.root kind.chunk source choices = some start)
    (hfinal : Comes (limits options) start final) (found : Bool) :
    kind.Completes options source choices found ↔
      ∃ values, final.outcome = .ok values ∧
        (kind.requiredOf final.store values).isTable = found := by
  simp [Completes, runsTo_iff hstart hfinal]

end Report

/-- How a script's run has gone, and its outcome. -/
inductive Report (kind : RecordKind) (options : SandboxOptions) (source : String)
    (choices : Choices) (o : Outcome) : Prop where
  | spent (limit : Nat) (hlimit : options.instructionLimit = some limit)
    (hspent : Spent options kind.root kind.chunk source choices)
    (hroot : o.root = .error (.outOfInstructions kind.chunk limit))
  | failed (cause : Cause) (hspent : ¬ Spent options kind.root kind.chunk source choices)
    (hfails : Fails options kind.root kind.chunk source choices)
    (hcompletes : ∀ found, ¬ kind.Completes options source choices found)
    (hroot : o.root = .error (.execution kind.chunk cause))
  | ended (v : Value) (found : Bool)
    (hspent : ¬ Spent options kind.root kind.chunk source choices)
    (hfails : ¬ Fails options kind.root kind.chunk source choices)
    (hcompletes : ∀ b, kind.Completes options source choices b ↔ b = found)
    (hroot : o.root = .ok v)
    (hresult : if found then ∃ r, (kind.ofOutcome o).result = .ok r
      else (kind.ofOutcome o).result = .error (.missingSection kind.requiredName))

/-- A script that is run has a report, if its run ends. -/
theorem report_of_run {start : Machine × Step} {final : Final}
    (hstart : start? options kind.root kind.chunk source choices = some start)
    (hrun : Machine.run (limits options) fuel start.1 start.2 = some final) :
    Report kind options source choices (finish (limits options) kind.chunk kind.root final) := by
  have hfinal := comes_of_run hrun
  have hspent := spent_iff hstart hfinal
  have hfails := fails_iff hstart hfinal
  have hcompletes := completes_iff hstart hfinal
  cases hexhausted : final.exhausted with
  | true =>
    have hspent' := hspent.mpr hexhausted
    obtain ⟨limit, hlimit⟩ := limit_of_spent hspent'
    exact .spent limit hlimit hspent' (by rw [finish_exhausted hlimit hexhausted])
  | false =>
    rw [hexhausted] at hspent
    have hfinish : finish (limits options) kind.chunk kind.root final = _ :=
      finish_within (limits options) hexhausted
    cases houtcome : final.outcome with
    | error fault =>
      rw [houtcome] at hfails hcompletes hfinish
      exact .failed _ (by simp [hspent]) (by simp [hfails]) (by simp [hcompletes])
        (congrArg Outcome.root hfinish)
    | ok values =>
      simp only [houtcome] at hfails hcompletes hfinish
      rw [hfinish]
      refine .ended _ (kind.requiredOf final.store values).isTable (by simp [hspent])
        (by simp [hfails]) (fun b => ?_) rfl ?_
      · simp [hcompletes, eq_comm]
      · exact result_of_values (o := ⟨.ok (kind.root.value final.store values), final.store⟩) rfl

/-- A script that is not cramped has a report of its outcome. -/
theorem report (hroom : isCramped options = false)
    (h : runFor fuel options kind.root kind.chunk source choices = some o) :
    Report kind options source choices o := by
  cases hread : read kind.root kind.chunk source with
  | error cause =>
    have hstart : start? options kind.root kind.chunk source choices = none :=
      start?_of_error hread
    rw [runFor_of_error hroom hread] at h
    cases h
    refine .failed cause (not_spent_of_none hstart) (.inl ⟨cause, hread⟩) ?_ rfl
    rintro found ⟨final, values, hruns, -⟩
    exact not_runsTo_of_none hstart final hruns
  | ok code =>
    have hstart := start?_of_read choices hroom hread
    obtain ⟨final, hrun, rfl⟩ := run_of_runFor hstart h
    exact report_of_run hstart hrun

/-- A record is read of what a run has ended with, once the collector has been at work. -/
theorem exists_of_parseFor (h : kind.parseFor fuel options source choices = some p) :
    ∃ o o', runFor fuel options kind.root kind.chunk source choices = some o ∧
      o'.root = o.root ∧ p = kind.ofOutcome o' ∧
        (KeepsTidy options kind.root kind.chunk source choices → o' = o) := by
  obtain ⟨o', hready, rfl⟩ := Option.map_eq_some_iff.mp h
  obtain ⟨o, hrun, hsettle⟩ := Option.bind_eq_some_iff.mp hready
  refine ⟨o, o', hrun, root_of_settle hsettle, rfl, fun htidy => ?_⟩
  rw [readyFor_of_tidy htidy, hrun] at hready
  exact (Option.some.inj hready).symm

end RecordKind

/-- What is reported of a script.  One that leaves nothing to the collector has a report if and only
if its run ends.  Of every report: that a run cannot be prepared depends on the options alone; where
it can, the instructions are reported as spent if and only if they have been found so at some time,
and otherwise it is a failure if and only if the script could not be read or failed.  If it leaves
nothing to the collector, what is left is a missing section if and only if the run has ended without
the table that the record needs, and a record in all other cases. -/
theorem RecordKind.parseFor_result (kind : RecordKind) (options : SandboxOptions) (source : String)
    (choices : Choices) :
    (KeepsTidy options kind.root kind.chunk source choices →
      ((∃ fuel p, kind.parseFor fuel options source choices = some p) ↔
        isCramped options = true ∨ Ends options kind.root kind.chunk source choices)) ∧
    ∀ fuel p, kind.parseFor fuel options source choices = some p →
      ((∃ cause, p.result = .error (.preparation cause)) ↔
          isCramped options = true ∧ options.instructionLimit.isSome = true) ∧
        (isCramped options = false →
          (∀ chunk limit, p.result = .error (.outOfInstructions chunk limit) ↔
            chunk = kind.chunk ∧ options.instructionLimit = some limit ∧
              Spent options kind.root kind.chunk source choices) ∧
          (∀ chunk, (∃ cause, p.result = .error (.execution chunk cause)) ↔
            chunk = kind.chunk ∧ Fails options kind.root kind.chunk source choices ∧
              ¬ Spent options kind.root kind.chunk source choices) ∧
          (KeepsTidy options kind.root kind.chunk source choices →
            (∀ name, p.result = .error (.missingSection name) ↔
              name = kind.requiredName ∧ kind.Completes options source choices false ∧
                ¬ Spent options kind.root kind.chunk source choices) ∧
            ((∃ r, p.result = .ok r) ↔ kind.Completes options source choices true ∧
              ¬ Spent options kind.root kind.chunk source choices))) := by
  constructor
  · intro htidy
    rw [← runFor_iff_ends]
    simp only [RecordKind.parseFor, readyFor_of_tidy htidy, Option.map_eq_some_iff]
    exact exists_congr fun fuel => ⟨fun ⟨p, o, ho, _⟩ => ⟨o, ho⟩, fun ⟨o, ho⟩ => ⟨_, o, ho, rfl⟩⟩
  intro fuel p hp
  obtain ⟨o, o', hrun, hroot', hread, htidy⟩ := RecordKind.exists_of_parseFor hp
  cases hroom : isCramped options with
  | true =>
    rw [runFor_of_cramped hroom, show (limits options).instructions = options.instructionLimit
      from rfl] at hrun
    refine ⟨?_, fun h => Bool.noConfusion h⟩
    split at hrun
    · next hlimit =>
      cases hrun
      rw [hread, RecordKind.result_of_error hroot']
      simp [hlimit]
    · next hlimit =>
      cases hrun
      rw [hread, RecordKind.result_of_error hroot']
      simp [hlimit]
  | false =>
    obtain ⟨limit, hlimit, hspent, hroot⟩ | ⟨cause, hspent, hfails, hcompletes, hroot⟩ |
      ⟨v, found, hspent, hfails, hcompletes, hroot, hresult⟩ := RecordKind.report hroom hrun
    · have hresult : p.result = _ := hread ▸ RecordKind.result_of_error (hroot'.trans hroot)
      refine ⟨by simp [hresult], fun _ => ⟨fun chunk limit' => ?_, fun chunk => ?_, fun _ =>
        ⟨fun name => ?_, ?_⟩⟩⟩
      · simp [hresult, hlimit, hspent, eq_comm]
      · simp [hresult, hspent]
      · simp [hresult, hspent]
      · simp [hresult, hspent]
    · have hresult : p.result = _ := hread ▸ RecordKind.result_of_error (hroot'.trans hroot)
      refine ⟨by simp [hresult], fun _ => ⟨fun chunk limit => ?_, fun chunk => ?_, fun _ =>
        ⟨fun name => ?_, ?_⟩⟩⟩
      · simp [hresult, hspent]
      · simp [hresult, hspent, hfails, eq_comm]
      · simp [hresult, hcompletes]
      · simp [hresult, hcompletes]
    · -- the collector can do nothing but to have the table missed that was there, or found
      have hok : (∃ r, p.result = .ok r) ∨ ∃ name, p.result = .error (.missingSection name) :=
        hread ▸ RecordKind.result_of_ok (hroot'.trans hroot)
      refine ⟨?_, fun _ => ⟨fun chunk limit => ?_, fun chunk => ?_, fun hkeeps => ?_⟩⟩
      · obtain ⟨r, hr⟩ | ⟨name, hname⟩ := hok
        · simp [hr]
        · simp [hname]
      · obtain ⟨r, hr⟩ | ⟨name, hname⟩ := hok
        · simp [hr, hspent]
        · simp [hname, hspent]
      · obtain ⟨r, hr⟩ | ⟨name, hname⟩ := hok
        · simp [hr, hfails]
        · simp [hname, hfails]
      · rw [← htidy hkeeps, ← hread] at hresult
        cases found with
        | true =>
          obtain ⟨r, hr⟩ := hresult
          simp [hr, hspent, hcompletes]
        | false =>
          have hmissing : p.result = .error (.missingSection kind.requiredName) := hresult
          simp [hmissing, hspent, hcompletes, eq_comm]

theorem isTidy_emptyTable : (startOf { memoryLimit := none } {} emptyTable).2.store.IsTidy :=
  .of_plain (by decide +kernel) (by decide +kernel)

theorem RecordKind.parseFor_result_emptyTable :
    KeepsTidy { memoryLimit := none } level.root level.chunk "{}" {} ∧
      ∃ p, level.parseFor 1 { memoryLimit := none } "{}" {} = some p ∧ ∃ r, p.result = .ok r := by
  let options : SandboxOptions := { memoryLimit := none }
  have hstart : start? options level.root level.chunk "{}" {} =
      some (startOf options {} emptyTable) := start?_of_read {} rfl read_emptyTable
  obtain ⟨σ, ref, -, hrun⟩ := run_emptyTable options {} rfl
  have hfinal := comes_of_run hrun
  -- the run is a single step, from a store without metatables
  have htidy : KeepsTidy options level.root level.chunk "{}" {} := by
    intro start a hstart' ha
    obtain rfl := Option.some.inj (hstart.symm.trans hstart')
    obtain rfl | ⟨c, hstep, -⟩ := ha.cases_head
    · exact isTidy_emptyTable
    · rw [Leads] at hstep
      rw [Machine.run, hstep] at hrun
      cases hrun
  have hspent : ¬ Spent options level.root level.chunk "{}" {} := by
    rw [spent_iff hstart hfinal]
    exact Bool.false_ne_true
  have hcompletes : level.Completes options "{}" {} true := by
    rw [completes_iff hstart hfinal]
    exact ⟨_, rfl, rfl⟩
  obtain ⟨p, hparse⟩ : ∃ p, level.parseFor 1 options "{}" {} = some p := by
    rw [RecordKind.parseFor, readyFor_of_tidy htidy, runFor_of_run hstart hrun]
    exact ⟨_, rfl⟩
  obtain ⟨-, hresult⟩ := parseFor_result level options "{}" {}
  obtain ⟨-, -, hread⟩ := (hresult 1 _ hparse).2 rfl
  exact ⟨htidy, p, hparse, (hread htidy).2.mpr ⟨hcompletes, hspent⟩⟩

/-- A script that takes its options away when they have been looked for: the last thing it does is to
tell the collector to go on, which has a finalizer to call. -/
def finalizing : String :=
  "x = setmetatable(\x7b\x7d, \x7b__gc = function() configuration_options = nil end\x7d) " ++
    "configuration_options = \x7b\x7d collectgarbage() x = nil collectgarbage('restart')"

/-- Has a run ended with the table that a mod needs? -/
def endsWithOptions (final : Final) : Bool :=
  match final.outcome with
  | .ok values => !final.exhausted && (RecordKind.modInfo.requiredOf final.store values).isTable
  | .error _ => false

/-- Is it that table that is missed in a report? -/
def missesOptions (p : Parsed Record) : Bool :=
  match p.result with
  | .ok _ => false
  | .error failure => failure = .missingSection ModInfo.optionsKey

/-- A script has completed its run with the table that is needed, and its record lacks it; another one
has spent its instructions, and nothing is reported. -/
theorem RecordKind.parseFor_result_finalized :
    (modInfo.Completes {} finalizing {} true ∧
        ¬ Spent {} modInfo.root modInfo.chunk finalizing {} ∧
        ∃ p, modInfo.parseFor 60 {} finalizing {} = some p ∧
          p.result = .error (.missingSection ModInfo.optionsKey)) ∧
      Spent tight modInfo.root modInfo.chunk counted {} ∧
        ∀ fuel, modInfo.parseFor fuel tight counted {} = none := by
  constructor
  · have hruns : (start? {} modInfo.root modInfo.chunk finalizing {}).any (fun start =>
        (Machine.run (limits {}) 60 start.1 start.2).any fun final => endsWithOptions final &&
          (((finish (limits {}) modInfo.chunk modInfo.root final).settle (limits {}) 60).map
            modInfo.ofOutcome).any missesOptions) = true := by
      decide +kernel
    obtain ⟨start, hstart, hruns⟩ := (Option.any_eq_true _ _).mp hruns
    obtain ⟨final, hrun, hends⟩ := (Option.any_eq_true _ _).mp hruns
    obtain ⟨htable, hmissing⟩ := Bool.and_eq_true_iff.mp hends
    obtain ⟨p, hp, hmissing⟩ := (Option.any_eq_true _ _).mp hmissing
    have hfinal := comes_of_run hrun
    unfold endsWithOptions at htable
    split at htable
    · next values houtcome =>
      obtain ⟨hexhausted, htable⟩ := Bool.and_eq_true_iff.mp htable
      refine ⟨?_, ?_, p, ?_, ?_⟩
      · rw [completes_iff hstart hfinal]
        exact ⟨values, houtcome, htable⟩
      · rw [spent_iff hstart hfinal]
        simpa using hexhausted
      · rw [parseFor, readyFor_of_runFor (runFor_of_run hstart hrun), hp]
      · unfold missesOptions at hmissing
        split at hmissing
        · cases hmissing
        · next failure hresult => rw [hresult, of_decide_eq_true hmissing]
    · cases htable
  · obtain ⟨start, a, hstart, ha, hover⟩ := counted_reaches
    refine ⟨⟨start, a, hstart, ha, spends_of_handsOver rfl hover⟩, fun fuel => ?_⟩
    have hnone : runFor fuel tight modInfo.root modInfo.chunk counted {} = none :=
      counted_endless fuel
    rw [RecordKind.parseFor, readyFor, hnone]
    rfl

end LuaConfig
