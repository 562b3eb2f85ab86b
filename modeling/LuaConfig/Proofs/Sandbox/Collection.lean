/-
What the collector can do to what a script has left.

While a script runs the machine calls no finalizer, and no reference is lost.  That is what happens
if no table has a finalizer and no reference is weak (`Store.IsTidy`).  Of a run that has been tidy
throughout, what is read is what it ended with (`readyFor_of_tidy`).
-/
import LuaConfig.Proofs.Lua.Unwinding
import LuaConfig.Proofs.Sandbox.Run

namespace LuaConfig

open Lua Lua.Machine

namespace Lua

/-- The key under which a metatable says which references of its table are weak. -/
def Store.weaknessKey : Value := .ofString "__mode"

/-- Nothing of a store is the collector's: no table waits for its finalizer, and none has weak
references. -/
structure Store.IsTidy (σ : Store) : Prop where
  marked : σ.collector.marked = []
  strong : ∀ t ∈ σ.tables, ∀ ref ∈ t.metatable, (σ.table ref).getEntry Store.weaknessKey = .nil

/-- A store is tidy where no table has a metatable. -/
theorem Store.IsTidy.of_plain {σ : Store} (hmarked : σ.collector.marked = [])
    (hplain : σ.tables.all (·.metatable.isNone) = true) : σ.IsTidy where
  marked := hmarked
  strong t ht ref href := by
    have hnone := Array.all_eq_true'.mp hplain t ht
    rw [Option.isNone_iff_eq_none.mp hnone] at href
    cases href

theorem Store.IsTidy.of_data {σ σ' : Store} (h : σ'.data = σ.data) (hσ : σ.IsTidy) :
    σ'.IsTidy := by
  have htables : σ'.tables = σ.tables := show σ'.data.tables = σ.data.tables by rw [h]
  have hcollector : σ'.collector = σ.collector :=
    show σ'.data.collector = σ.data.collector by rw [h]
  refine ⟨hcollector ▸ hσ.marked, fun t ht ref href => ?_⟩
  rw [Store.table, htables]
  exact hσ.strong t (htables ▸ ht) ref href

namespace Machine

variable {limits : Limits} {m : Machine} {σ : Store} {final : Final}

/-! ### The last step of a run -/

theorem unwind_final {fault : Fault} (stack : List Entry)
    (h : unwind m fault σ stack = .error final) : final.store = σ := by
  induction stack generalizing m with
  | nil =>
    cases h
    rfl
  | cons e rest ih =>
    cases e with
    | frame site slots k => exact ih h
    | scope labels => exact ih h
    | handling handler again watched depth slots => exact ih h
    | unwinding inner => exact ih h
    | _ => cases h

theorem resume_final {results : List Value} {stack : List Entry}
    (h : resume m results σ stack = .error final) : final.store = σ := by
  induction stack generalizing m with
  | nil =>
    cases h
    rfl
  | cons e rest ih =>
    cases e with
    | scope labels => exact ih h
    | handling handler again watched depth slots => exact unwind_final rest h
    | unwinding fault => exact unwind_final rest h
    | _ => cases h

theorem raise_final {watched : Bool} {v : Value} (h : raise m watched v σ = .error final) :
    final.store = σ := by
  unfold raise at h
  split at h
  · exact unwind_final _ h
  · exact unwind_final _ h
  · cases h

theorem answer_final {s : Step} (h : answer limits m s = .error final) :
    final.store = s.store := by
  cases s with
  | done results σ => exact resume_final h
  | fail fault σ =>
    cases fault with
    | raised v => exact raise_final h
    | outOfMemory => exact unwind_final _ h
  | refuseAttempt message σ => exact raise_final h
  | tailCall site f args σ =>
    simp only [answer] at h
    split at h <;> cases h
  | attempt handler f args k σ =>
    simp only [answer] at h
    split at h <;> cases h
  | read reader k σ =>
    simp only [answer] at h
    split at h <;> cases h
  | _ => cases h

/-- A run ends with the data of its last state. -/
theorem step_final {a : Machine × Step} (h : step limits a.1 a.2 = .error final) :
    final.store.data = a.2.store.data := by
  unfold step at h
  dsimp only at h
  rw [← @checkMemory_data limits a.1 a.2]
  split at h
  · exact congrArg Store.data (answer_final h)
  · exact congrArg Store.data (raise_final h)

end Machine

end Lua

namespace Sandbox

/-- In no state of its run has a script left anything to the collector. -/
def KeepsTidy (options : SandboxOptions) (root : Root) (chunk source : String)
    (choices : Choices) : Prop :=
  ∀ start a, start? options root chunk source choices = some start →
    Reaches (limits options) start a → a.2.store.IsTidy

variable {options : SandboxOptions} {root : Root} {chunk source : String} {choices : Choices}
  {fuel : Nat} {o : Outcome}

/-- What a tidy run ends with leaves nothing to the collector. -/
theorem marked_of_tidy (htidy : KeepsTidy options root chunk source choices)
    (h : runFor fuel options root chunk source choices = some o) :
    o.store.collector.marked = [] := by
  cases hroom : isCramped options with
  | true =>
    rw [runFor_of_cramped hroom] at h
    split at h <;> cases h <;> rfl
  | false =>
    cases hread : read root chunk source with
    | error cause =>
      rw [runFor_of_error hroom hread] at h
      cases h
      rfl
    | ok code =>
      have hstart := start?_of_read choices hroom hread
      obtain ⟨final, hrun, rfl⟩ := run_of_runFor hstart h
      obtain ⟨b, hb, hend⟩ := ends_of_run hrun
      have hfinal := (htidy _ b hstart hb).of_data (step_final hend)
      rw [store_finish]
      exact hfinal.marked

/-- What is read of a tidy run is what it ended with. -/
theorem readyFor_of_tidy (htidy : KeepsTidy options root chunk source choices) :
    readyFor fuel options root chunk source choices =
      runFor fuel options root chunk source choices := by
  cases ho : runFor fuel options root chunk source choices with
  | none =>
    rw [readyFor, ho]
    rfl
  | some o => rw [readyFor_of_runFor ho, settle_of_unmarked (marked_of_tidy htidy ho)]

end Sandbox

end LuaConfig
