/-
How the run of a script begins and ends.

A script that can be read, and for which there is room, begins to run in a state that depends on the
options, the script and the interpreter's choices alone (`start?`).  What is reported of its run
depends on the way the run ends; a run that does not end has no outcome (`runFor_of_endless`).

The collector changes nothing where no table waits for its finalizer (`settle_of_unmarked`).
-/
import LuaConfig.Proofs.Lua.Machine
import LuaConfig.Sandbox.Run

namespace LuaConfig

open Lua Lua.Machine

namespace Sandbox

/-- The state in which the function of a script begins to run. -/
def startOf (options : SandboxOptions) (choices : Choices) (code : Function) : Machine × Step :=
  let σ := prepare options choices
  let (f, σ) := σ.newChunk code (.table σ.globals)
  (initial, invoke none f [] σ)

/-- The state in which a script begins to run, if it can be read and there is room for it. -/
def start? (options : SandboxOptions) (root : Root) (chunk source : String) (choices : Choices) :
    Option (Machine × Step) :=
  if isCramped options then none
  else (read root chunk source).toOption.map (startOf options choices)

variable {options : SandboxOptions} {root : Root} {chunk source : String} {choices : Choices}
  {fuel : Nat} {start : Machine × Step} {final : Final} {o : Outcome}

/-- The store in which the function of a script begins to run. -/
def startStore (options : SandboxOptions) (choices : Choices) (code : Function) : Store :=
  { ((prepare options choices).newChunk code (.table (prepare options choices).globals)).2 with
    slots := #[] }

theorem startOf_eq (options : SandboxOptions) (choices : Choices) (code : Function) :
    startOf options choices code =
      (initial, code.run #[(prepare options choices).cells.size] []
        (startStore options choices code)) := by
  have hclosure : ((prepare options choices).newChunk code
      (.table (prepare options choices).globals)).2.functions[
        (prepare options choices).functions.size]? =
      some (.script code #[(prepare options choices).cells.size]) := Array.getElem?_push_size
  exact congrArg (Prod.mk initial) (invoke_script hclosure)

section Start

variable (options choices) (code : Function)

theorem spent_startStore : (startStore options choices code).spent = 0 := rfl

theorem prints_startStore : (startStore options choices code).prints = [] := rfl

end Start

theorem start?_of_cramped (hroom : isCramped options = true) :
    start? options root chunk source choices = none := by
  rw [start?, if_pos hroom]

theorem start?_of_read (choices : Choices) {code : Function} (hroom : isCramped options = false)
    (hcode : read root chunk source = .ok code) :
    start? options root chunk source choices = some (startOf options choices code) := by
  rw [start?, if_neg (by simp [hroom]), hcode]
  rfl

theorem start?_of_error {cause : Cause} (hcause : read root chunk source = .error cause) :
    start? options root chunk source choices = none := by
  rw [start?, hcause]
  exact ite_self _

/-- A script that begins to run has been read, and there is room for it. -/
theorem read_of_start (h : start? options root chunk source choices = some start) :
    isCramped options = false ∧ ∃ code, read root chunk source = .ok code := by
  cases hroom : isCramped options with
  | true =>
    rw [start?_of_cramped hroom] at h
    cases h
  | false =>
    cases hread : read root chunk source with
    | error cause =>
      rw [start?_of_error hread] at h
      cases h
    | ok code => exact ⟨rfl, code, rfl⟩

theorem start_meter (h : start? options root chunk source choices = some start) :
    start.1.meter.exhausted = false := by
  obtain ⟨hroom, code, hcode⟩ := read_of_start h
  rw [start?_of_read choices hroom hcode] at h
  cases h
  rfl

/-! ### What is reported -/

theorem runFor_of_cramped (hroom : isCramped options = true) :
    runFor fuel options root chunk source choices =
      if (limits options).instructions.isSome then
        some ⟨.error (.preparation .outOfMemory), prepare options choices⟩
      else some ⟨.error (.execution chunk .outOfMemory), prepare options choices⟩ := by
  rw [runFor, if_pos hroom]

/-- A script that cannot be read is not run. -/
theorem runFor_of_error {cause : Cause} (hroom : isCramped options = false)
    (hcause : read root chunk source = .error cause) :
    runFor fuel options root chunk source choices =
      some ⟨.error (.execution chunk cause), prepare options choices⟩ := by
  rw [runFor, if_neg (by simp [hroom]), hcause]

/-- A script that begins to run is run from there, and the way it ends is reported. -/
theorem runFor_of_start (fuel : Nat)
    (hstart : start? options root chunk source choices = some start) :
    runFor fuel options root chunk source choices =
      (Machine.run (limits options) fuel start.1 start.2).map
        (finish (limits options) chunk root) := by
  obtain ⟨hroom, code, hcode⟩ := read_of_start hstart
  rw [start?_of_read choices hroom hcode] at hstart
  cases hstart
  rw [runFor, if_neg (by simp [hroom]), hcode]
  rfl

/-- A run that has not ended has no outcome. -/
theorem runFor_of_endless (hstart : start? options root chunk source choices = some start)
    (hrun : Machine.run (limits options) fuel start.1 start.2 = none) :
    runFor fuel options root chunk source choices = none := by
  rw [runFor_of_start fuel hstart, hrun]
  rfl

theorem runFor_of_run (hstart : start? options root chunk source choices = some start)
    (hrun : Machine.run (limits options) fuel start.1 start.2 = some final) :
    runFor fuel options root chunk source choices =
      some (finish (limits options) chunk root final) := by
  rw [runFor_of_start fuel hstart, hrun]
  rfl

/-- The outcome of a script that begins to run is reported of the way in which its run ends. -/
theorem run_of_runFor (hstart : start? options root chunk source choices = some start)
    (h : runFor fuel options root chunk source choices = some o) :
    ∃ final, Machine.run (limits options) fuel start.1 start.2 = some final ∧
      o = finish (limits options) chunk root final := by
  rw [runFor_of_start fuel hstart] at h
  obtain ⟨final, hrun, rfl⟩ := Option.map_eq_some_iff.mp h
  exact ⟨final, hrun, rfl⟩

/-- A script that has an outcome in some steps has it in more. -/
theorem runFor_add (h : runFor fuel options root chunk source choices = some o) (more : Nat) :
    runFor (fuel + more) options root chunk source choices = some o := by
  cases hroom : isCramped options with
  | true =>
    rw [runFor_of_cramped hroom] at h ⊢
    exact h
  | false =>
    cases hread : read root chunk source with
    | error cause =>
      rw [runFor_of_error hroom hread] at h ⊢
      exact h
    | ok code =>
      have hstart := start?_of_read choices hroom hread
      obtain ⟨final, hrun, rfl⟩ := run_of_runFor hstart h
      exact runFor_of_run hstart (run_add hrun more)

/-- A script that is patiently run comes to its outcome, if it has one in fewer steps. -/
theorem run_eq_of_run (hfuel : fuel ≤ patience)
    (hstart : start? options root chunk source choices = some start)
    (hrun : Machine.run (limits options) fuel start.1 start.2 = some final) :
    run options root chunk source choices = finish (limits options) chunk root final := by
  obtain ⟨more, hmore⟩ := Nat.exists_eq_add_of_le hfuel
  rw [run, runFor_of_run hstart (hmore ▸ run_add hrun more)]
  rfl

/-! ### The collector -/

/-- Where no table waits for its finalizer the collector changes nothing. -/
theorem settle_of_unmarked {limits : Limits} (h : o.store.collector.marked = []) :
    o.settle limits fuel = some o := by
  have hnone (root : Value) : condemned o.store root = [] := by
    rw [condemned, h]
    rfl
  unfold Outcome.settle
  split
  · rfl
  · rw [hnone, ite_self]

/-- The collector leaves the root as it is. -/
theorem root_of_settle {limits : Limits} {o' : Outcome} (h : o.settle limits fuel = some o') :
    o'.root = o.root := by
  unfold Outcome.settle at h
  split at h
  · cases h
    rfl
  · split at h
    · cases h
      rfl
    · obtain ⟨σ, -, rfl⟩ := Option.map_eq_some_iff.mp h
      rfl

theorem readyFor_of_runFor (hrun : runFor fuel options root chunk source choices = some o) :
    readyFor fuel options root chunk source choices = o.settle (limits options) fuel := by
  rw [readyFor, hrun]
  rfl

/-- A script that leaves no table waiting for its finalizer is read as it ends. -/
theorem ready_eq_run
    (hmarked : (run options root chunk source choices).store.collector.marked = []) :
    ready options root chunk source choices = run options root chunk source choices := by
  cases ho : runFor patience options root chunk source choices with
  | none =>
    rw [ready, readyFor, run, ho]
    rfl
  | some o =>
    have hrun : run options root chunk source choices = o := by
      rw [run, ho]
      rfl
    rw [hrun] at hmarked
    rw [ready, readyFor_of_runFor ho, settle_of_unmarked hmarked, hrun]
    rfl

/-! ### Ways in which a run ends -/

/-- A run whose instructions are spent is reported as such. -/
theorem finish_exhausted {limit : Nat} (hlimit : options.instructionLimit = some limit)
    (hfinal : final.exhausted = true) :
    finish (limits options) chunk root final =
      ⟨.error (.outOfInstructions chunk limit), final.store⟩ := by
  have hinstructions : (limits options).instructions = some limit := hlimit
  unfold finish
  rw [hinstructions, hfinal]

theorem store_finish (limits : Limits) : (finish limits chunk root final).store = final.store := by
  unfold finish
  split
  · rfl
  · rfl
  · rfl

/-- The value that is looked at where a run has returned. -/
def Root.value : Root → Store → List Value → Value
  | returned, _, values => values.headD .nil
  | globals, σ, _ => .table σ.globals

/-- The root of a run that has kept to its limits does not depend on them. -/
theorem finish_within (limits : Limits) (hfinal : final.exhausted = false) :
    finish limits chunk root final =
      ⟨match final.outcome with
        | .error fault => .error (.execution chunk (faultCause final.store fault))
        | .ok values => .ok (root.value final.store values), final.store⟩ := by
  unfold finish
  rw [hfinal]
  cases limits.instructions <;> cases final.outcome <;> cases root <;> rfl

/-! ### A script that returns an empty table -/

/-- The function of the text of an empty table. -/
def emptyTable : Function :=
  .mk "leveldataoverride.lua" 0 true 0 [.upvalue 0] (.mk false [.return [.table [] 1]])

theorem read_emptyTable : read .returned "leveldataoverride.lua" "{}" = .ok emptyTable := by cbv

/-- Whatever the limit on its instructions, the script returns its table at once. -/
theorem run_emptyTable (options : SandboxOptions) (choices : Choices)
    (hmemory : (limits options).memory = none) :
    ∃ σ ref, σ.collector = {} ∧ Machine.run (limits options) 1
      (startOf options choices emptyTable).1 (startOf options choices emptyTable).2 =
        some ⟨.ok [.table ref], σ, false⟩ := by
  have hcode : ∃ σ ref, emptyTable.run #[(prepare options choices).cells.size] []
      (startStore options choices emptyTable) = .done [.table ref] σ ∧ σ.collector = {} ∧
        σ.spent = (startStore options choices emptyTable).spent + 2 := by
    rw [emptyTable, Function.run]
    simp only [Block.exec, Stmt.execList, Stmt.exec, Expr.evalList, Expr.evalMulti, Expr.eval,
      Expr.evalItems]
    exact ⟨_, _, rfl, rfl, rfl⟩
  obtain ⟨σ, ref, hcode, hcollector, hspent⟩ := hcode
  refine ⟨σ, ref, hcollector, ?_⟩
  have hstep : step (limits options) initial (.done [.table ref] σ) =
      .error ⟨.ok [.table ref], σ, false⟩ := by
    refine step_of_lt hmemory ?_
    rw [Step.store, hspent, spent_startStore]
    show 0 + 2 < 1000
    decide
  rw [startOf_eq, hcode, Machine.run.eq_def]
  simp only [hstep]

end Sandbox

end LuaConfig
