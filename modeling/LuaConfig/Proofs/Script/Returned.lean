/-
Scalars that are returned.

The text of a scalar is an expression of its own (`run_scalar`).  That of a number stands for the
number: the double that it returns has the same bits, save for the zero with a minus sign.  Its text
is the integer zero behind a minus sign, and integers have one zero.

Main statement:
* `run_number` — which doubles come back from their texts, bit by bit.
-/
import LuaConfig.Proofs.Script.Reread

namespace LuaConfig.Script

open Decimal

/-- The bits of the zero with a minus sign. -/
def negativeZeroBits : UInt64 := 0x8000000000000000

theorem isNegativeZero_iff (x : Float) :
    isNegativeZero x = true ↔ x.toBits = negativeZeroBits := by
  have hbits : (ofMagnitudeBits true 0).toBits = negativeZeroBits := by decide
  rw [isNegativeZero, decide_eq_true_eq, ← hbits]
  exact ⟨congrArg Float.toBits, fun h => toBits_toNat_inj (congrArg UInt64.toNat h)⟩

theorem toBits_normal_iff (x : Float) :
    (normal x).toBits = x.toBits ↔ x.toBits ≠ negativeZeroBits := by
  rw [ne_eq, ← isNegativeZero_iff, Bool.not_eq_true, ← normal_eq_self_iff]
  exact ⟨fun h => toBits_toNat_inj (congrArg UInt64.toNat h), congrArg Float.toBits⟩

theorem normal_negativeZero {x : Float} (h : x.toBits = negativeZeroBits) :
    x = ofMagnitudeBits true 0 ∧ normal x = ofMagnitudeBits false 0 := by
  obtain rfl : x = ofMagnitudeBits true 0 := of_decide_eq_true ((isNegativeZero_iff x).mpr h)
  exact ⟨rfl, normal_of_zero (ofFloat_zero true)⟩

theorem isNaN_normal (x : Float) : (normal x).isNaN = x.isNaN := by
  by_cases h : x.toBits = negativeZeroBits
  · obtain ⟨hx, hnormal⟩ := normal_negativeZero h
    rw [hnormal, hx]
    decide
  · rw [(normal_eq_self_iff x).mpr (Bool.eq_false_iff.mpr (mt (isNegativeZero_iff x).mp h))]

/-- The text of a number, taken as an expression, returns a value whose double is not a number
exactly if the number is none, and otherwise has the bits of the number if and only if these are not
the bits of the zero with a minus sign.  That zero comes back without its sign. -/
theorem run_number (options : SandboxOptions) (x : Float) (choices : Lua.Choices) :
    ∃ v σ y, Sandbox.run options.unlimited .returned RecordKind.level.chunk (number x) choices =
        ⟨.ok v, σ⟩ ∧
      v.double? = some y ∧ y.isNaN = x.isNaN ∧
      (x.isNaN = false → (y.toBits = x.toBits ↔ x.toBits ≠ negativeZeroBits)) ∧
      (x.toBits = negativeZeroBits → y.toBits = 0) := by
  obtain ⟨σ, hrun⟩ := run_scalar options (.number x) choices
  refine ⟨_, σ, normal x, hrun, double_numberValue x, isNaN_normal x,
    fun _ => toBits_normal_iff x, fun h => ?_⟩
  rw [(normal_negativeZero h).2]
  decide

/-- The zero with a minus sign is another double than the one that its text returns. -/
theorem run_number_negativeZero :
    (Float.ofBits negativeZeroBits).isNaN = false ∧
      ¬ ∃ v σ y, Sandbox.run (SandboxOptions.unlimited {}) .returned RecordKind.level.chunk
          (number (Float.ofBits negativeZeroBits)) = ⟨.ok v, σ⟩ ∧
        v.double? = some y ∧ y.toBits = (Float.ofBits negativeZeroBits).toBits := by
  refine ⟨by decide, ?_⟩
  rintro ⟨v, σ, y, hrun, hy, hbits⟩
  obtain ⟨σ', hrun'⟩ := run_scalar {} (.number (Float.ofBits negativeZeroBits)) {}
  have hv : (numberValue (Float.ofBits negativeZeroBits)).toValue = v :=
    Except.ok.inj (congrArg Sandbox.Outcome.root (hrun'.symm.trans hrun))
  rw [← hv, double_numberValue, Option.some.injEq] at hy
  rw [← hy, toBits_normal_iff] at hbits
  exact hbits (by decide)

end LuaConfig.Script
