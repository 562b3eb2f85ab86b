/-
The order of values.

`Value.order` finds keys again: it is a linear order in which only equal values are equal.  To see
this it is taken as the order of the parts of values (`order_eq`), of which all but a few are the
same for all values of a kind.
-/
import LuaConfig.Lua.Value
import LuaConfig.Proofs.Decimal.Bits
import LuaConfig.Proofs.Lua.Octets

namespace LuaConfig.Lua

open Std

attribute [local instance] lexOrd

/-! ### Strings -/

namespace Octets

theorem drop_toList_of_lt {s : Octets} {i : Nat} (h : i < s.size) :
    s.toList.drop i = s[i] :: s.toList.drop (i + 1) := by
  have hi : i < s.toList.length := by
    rw [toList_eq, Array.length_toList, ByteArray.size_data]
    exact h
  have hget : s.toList[i] = s[i] := by
    simp only [toList_eq, Array.getElem_toList]
    rfl
  rw [List.drop_eq_getElem_cons hi, hget]

theorem drop_toList_of_le {s : Octets} {i : Nat} (h : s.size ≤ i) : s.toList.drop i = [] := by
  rw [List.drop_eq_nil_iff, toList_eq, Array.length_toList, ByteArray.size_data]
  exact h

theorem compareFrom_eq (a b : Octets) (fuel i : Nat) (hi : i ≤ a.size) (h : a.size < fuel + i) :
    compareFrom a b fuel i = compare (a.toList.drop i) (b.toList.drop i) := by
  -- `i` octets have been found equal, and the fuel is enough for the rest of `a`
  induction fuel generalizing i with
  | zero => omega
  | succ fuel ih =>
    rw [compareFrom]
    by_cases ha : i < a.size
    · by_cases hb : i < b.size
      · rw [dif_pos ha, dif_pos hb, drop_toList_of_lt ha, drop_toList_of_lt hb,
          List.compare_cons_cons, ih (i + 1) (by omega) (by omega)]
        have hcompare : compare a[i] b[i] =
            if a[i] < b[i] then .lt else if a[i] = b[i] then .eq else .gt := rfl
        rw [hcompare]
        split
        · rfl
        · next hlt =>
          by_cases heq : a[i] = b[i]
          · rw [heq, if_neg (UInt8.lt_irrefl _), if_pos rfl]
            rfl
          · rw [if_pos (UInt8.lt_of_le_of_ne (UInt8.not_lt.mp hlt) (Ne.symm heq)), if_neg heq]
            rfl
      · rw [dif_pos ha, dif_neg hb, drop_toList_of_lt ha, drop_toList_of_le (Nat.not_lt.mp hb)]
        rfl
    · rw [dif_neg ha, drop_toList_of_le (Nat.not_lt.mp ha)]
      by_cases hb : i < b.size
      · rw [if_pos hb, drop_toList_of_lt hb]
        rfl
      · rw [if_neg hb, drop_toList_of_le (Nat.not_lt.mp hb)]
        rfl

theorem order_eq (a b : Octets) : a.order b = compare a.toList b.toList := by
  rw [order, compareFrom_eq a b _ 0 (Nat.zero_le _) (by omega), List.drop_zero, List.drop_zero]

end Octets

/-! ### Values -/

namespace Value

/-- The parts of a value that its order looks at, one after the other. -/
structure Parts where
  rank : Nat
  flag : Bool := false
  whole : Int64 := 0
  bits : UInt64 := 0
  place : Nat := 0
  index : Nat := 0
  octets : List UInt8 := []
  words : String := ""

def parts (v : Value) : Parts :=
  match v with
  | nil => { rank := 0 }
  | bool b => { rank := 1, flag := b }
  | int n => { rank := 2, whole := n }
  | float x => { rank := 3, bits := x.toBits }
  | str s => { rank := 4, octets := s.toList }
  | table ref => { rank := 5, place := ref }
  | func ref => { rank := 6, place := ref }
  | builtin f =>
    { rank := 7, place := (builtinKey f).1, index := (builtinKey f).2.1
      octets := (builtinKey f).2.2.toList }
  | failure text => { rank := 8, words := text }

/-- The parts as a tuple, which is ordered by its components. -/
def Parts.tuple (p : Parts) :
    Nat × Bool × Int64 × UInt64 × Nat × Nat × List UInt8 × String :=
  (p.rank, p.flag, p.whole, p.bits, p.place, p.index, p.octets, p.words)

theorem Parts.compare_tuple (p p' : Parts) :
    compare p.tuple p'.tuple =
      (compare p.rank p'.rank).then ((compare p.flag p'.flag).then
        ((compare p.whole p'.whole).then ((compare p.bits p'.bits).then
          ((compare p.place p'.place).then ((compare p.index p'.index).then
            ((compare p.octets p'.octets).then (compare p.words p'.words))))))) := rfl

/-- The order of values is that of their parts. -/
theorem order_eq : order = compareOn fun v => (parts v).tuple := by
  funext a b
  rw [compareOn, Parts.compare_tuple]
  cases a <;> cases b <;> first
    | rfl
    | simp [order, parts, orderBuiltins, compare_self, Octets.order_eq]

instance : TransCmp order := by
  rw [order_eq]
  infer_instance

theorem builtinKey_inj {f g : Builtin} (h : builtinKey f = builtinKey g) : f = g := by
  have base : Function.Injective BaseFunction.ctorIdx := fun f g h => by
    rw [← BaseFunction.ofNat_ctorIdx f, h, BaseFunction.ofNat_ctorIdx]
  have string : Function.Injective StringFunction.ctorIdx := fun f g h => by
    rw [← StringFunction.ofNat_ctorIdx f, h, StringFunction.ofNat_ctorIdx]
  have table : Function.Injective TableFunction.ctorIdx := fun f g h => by
    rw [← TableFunction.ofNat_ctorIdx f, h, TableFunction.ofNat_ctorIdx]
  have math : Function.Injective MathFunction.ctorIdx := fun f g h => by
    rw [← MathFunction.ofNat_ctorIdx f, h, MathFunction.ofNat_ctorIdx]
  have arithmetic : Function.Injective Arithmetic.ctorIdx := fun f g h => by
    rw [← Arithmetic.ofNat_ctorIdx f, h, Arithmetic.ofNat_ctorIdx]
  cases f <;> cases g <;>
    simp [builtinKey, base.eq_iff, string.eq_iff, table.eq_iff, math.eq_iff,
      arithmetic.eq_iff] at h ⊢ <;>
    exact h

theorem parts_inj {a b : Value} (h : (parts a).tuple = (parts b).tuple) : a = b := by
  have hfloat : ∀ x y : Float, x.toBits = y.toBits → x = y := fun x y h => by
    rw [← Decimal.ofBits_toBits x, h, Decimal.ofBits_toBits]
  cases a <;> cases b <;> simp [parts, Parts.tuple] at h ⊢
  case float.float x y => exact hfloat x y h
  case str.str s t => exact Octets.toList_inj h
  case builtin.builtin f g =>
    exact builtinKey_inj (Prod.ext h.1 (Prod.ext h.2.1 (Octets.toList_inj h.2.2)))
  all_goals exact h

instance : LawfulEqCmp order := by
  refine ⟨fun {a b} h => parts_inj ?_⟩
  rw [order_eq, compareOn] at h
  exact LawfulEqCmp.eq_of_compare h

end Value

end LuaConfig.Lua
