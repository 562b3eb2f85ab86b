/-
Scripts without a limit on their instructions.

A script that keeps to a limit runs as it does without one, unless it asks for what tells whether
there is one: the place of a call beyond a guarded one, the error of a guarded call that lacks what
it needs, or the memory that is in use.  Nor may it leave anything to the collector, which does not
come to work at the same time in both.

Main statements:
* `unmetered` — the run of a script that does none of this;
* `unmetered_tells` — two scripts that find out.
-/
import LuaConfig.Proofs.Lua.Guards
import LuaConfig.Proofs.Sandbox.Budget
import LuaConfig.Proofs.Sandbox.Collection
import LuaConfig.Proofs.Sandbox.Limits

namespace LuaConfig

open Lua Lua.Machine

/-- The same options without a limit on instructions. -/
def SandboxOptions.unmetered (options : SandboxOptions) : SandboxOptions :=
  { options with instructionLimit := none }

namespace Sandbox

variable {options : SandboxOptions} {root : Root} {chunk source : String} {choices : Choices}
  {fuel limit : Nat}

theorem limits_frees (hmemory : (limits options).memory = none) :
    (limits (options.within limit)).Frees (limits options.unmetered) :=
  ⟨hmemory, hmemory, rfl⟩

/-- A run that ends and is not stopped is the same without the limit, if its steps are alike. -/
theorem run_unmetered (hmemory : (limits options).memory = none) {start : Machine × Step}
    {final : Final}
    (hstart : start? (options.within limit) root chunk source choices = some start)
    (hrun : Machine.run (limits (options.within limit)) fuel start.1 start.2 = some final)
    (hfinal : final.exhausted = false)
    (halike : ∀ a, Reaches (limits (options.within limit)) start a →
      Alike (limits (options.within limit)) (limits options.unmetered) a) :
    Machine.run (limits options.unmetered) fuel start.1 start.2 = some final :=
  run_frees (n := start.1.meter.next) (limits_frees hmemory) hrun
    (fun _ ha => not_spends_of_run hstart hrun hfinal ha) halike

/-! ### Runs without a limit -/

/-- A script whose run ends under a limit and is not stopped comes to the same without the limit, if
its memory is not limited, it takes no step that tells whether there is one, and it leaves nothing to
the collector.  Both runs are those of one interpreter's choices. -/
theorem unmetered (fuel limit : Nat) (options : SandboxOptions) (root : Root)
    (chunk source : String) (choices : Choices) {o : Outcome} (hmemory : options.memoryLimit = none)
    (hends : runFor fuel (options.within limit) root chunk source choices = some o)
    (hstopped : isStopped o.root = false)
    (halike : ∀ start a, start? (options.within limit) root chunk source choices = some start →
      Reaches (limits (options.within limit)) start a →
        Alike (limits (options.within limit)) (limits options.unmetered) a)
    (htidy : KeepsTidy (options.within limit) root chunk source choices) :
    runFor fuel options.unmetered root chunk source choices = some o ∧
      readyFor fuel options.unmetered root chunk source choices =
        readyFor fuel (options.within limit) root chunk source choices := by
  have hlimits : (limits options).memory = none := by rw [limits, hmemory]; rfl
  have hroom : isCramped options = false := by rw [isCramped, hlimits]; rfl
  have hrun : runFor fuel options.unmetered root chunk source choices = some o :=
    runFor_congr (options.within limit) options.unmetered rfl rfl hroom hroom
      (fun start final hstart hrun hfinal =>
        run_unmetered hlimits hstart hrun hfinal fun a => halike start a hstart) hends hstopped
  refine ⟨hrun, ?_⟩
  -- neither of the runs leaves a table that waits for its finalizer
  have hmarked := marked_of_tidy htidy hends
  rw [readyFor_of_runFor hrun, readyFor_of_runFor hends, settle_of_unmarked hmarked,
    settle_of_unmarked hmarked]

/-- Options without a limit on memory. -/
def freely (limit : Option Nat) : SandboxOptions := { instructionLimit := limit, memoryLimit := none }

/-- A script that returns an error as it is caught, raised with the place of the call it is in. -/
def raising : String := "local _, m = pcall(error, 'boom', 1) return m"

/-- Does a state tell nothing of a limit, and leave nothing to the collector? -/
def isPlain (a : Machine × Step) : Bool :=
  decide (Alike (limits ((freely none).within 100000)) (limits (freely none).unmetered) a) &&
    (a.2.store.collector.marked.isEmpty && a.2.store.tables.all (·.metatable.isNone))

theorem unmetered_raising :
    ∃ o, (freely none).memoryLimit = none ∧
      runFor 6 ((freely none).within 100000) .returned "script.lua" raising {} = some o ∧
      isStopped o.root = false ∧
      KeepsTidy ((freely none).within 100000) .returned "script.lua" raising {} ∧
      runFor 6 (freely none).unmetered .returned "script.lua" raising {} = some o := by
  have hends : (runFor 6 ((freely none).within 100000) .returned "script.lua" raising {}).any
      (fun o => !isStopped o.root) = true := by
    decide +kernel
  obtain ⟨o, hrun, hstopped⟩ := (Option.any_eq_true _ _).mp hends
  have hplain : (start? ((freely none).within 100000) .returned "script.lua" raising {}).all
      (throughout (limits ((freely none).within 100000)) isPlain 6) = true := by
    decide +kernel
  -- every state of the run is plain
  have hstates : ∀ start a,
      start? ((freely none).within 100000) .returned "script.lua" raising {} = some start →
      Reaches (limits ((freely none).within 100000)) start a → isPlain a = true :=
    fun start a hstart ha => of_throughout ((Option.all_eq_true _ _).mp hplain start hstart) ha
  have htidy : KeepsTidy ((freely none).within 100000) .returned "script.lua" raising {} := by
    intro start a hstart ha
    obtain ⟨hmarked, hmetatables⟩ :=
      Bool.and_eq_true_iff.mp (Bool.and_eq_true_iff.mp (hstates start a hstart ha)).2
    exact .of_plain (List.isEmpty_iff.mp hmarked) hmetatables
  have hnotStopped : isStopped o.root = false := by simpa using hstopped
  exact ⟨o, rfl, hrun, hnotStopped, htidy, (unmetered 6 100000 (freely none) .returned
    "script.lua" raising {} rfl hrun hnotStopped (fun start a hstart ha =>
      of_decide_eq_true (Bool.and_eq_true_iff.mp (hstates start a hstart ha)).1) htidy).1⟩

/-- The same script with the place of the call that is next outside. -/
def raisingOutside : String := "local _, m = pcall(error, 'boom', 2) return m"

/-- A script that returns the error by which a guarded call is refused. -/
def refusing : String := "local _, m = pcall(pcall) return m"

/-- Two scripts find out that their instructions are limited: one asks for the place of a call beyond
a guarded one, and the other does not say what to call. -/
theorem unmetered_tells :
    (run (freely (some 100000)) .returned "script.lua" raisingOutside).root =
        .ok (.ofString "boom") ∧
      (run (freely none) .returned "script.lua" raisingOutside).root =
        .ok (.ofString "script.lua:1: boom") ∧
      (run (freely (some 100000)) .returned "script.lua" refusing).root =
        .ok (.failure "not enough arguments to pcall") ∧
      (run (freely none) .returned "script.lua" refusing).root =
        .ok (.ofString "not enough arguments to pcall") := by
  refine ⟨?_, ?_, ?_, ?_⟩ <;> decide +kernel

end Sandbox

end LuaConfig
