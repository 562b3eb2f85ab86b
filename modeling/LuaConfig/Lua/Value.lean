/-
The values of scripts.
-/
import LuaConfig.Decimal.Binary64
import LuaConfig.Lua.Builtin

namespace LuaConfig.Lua

-- powers are the built-in ones
attribute [local instance (2000)] instPowNat
-- and so is the comparison of octets
attribute [local instance (2000)] ByteArray.instDecidableEq

/-- A value.  Tables and the functions of scripts have an identity: their place in the store. -/
inductive Value where
  | nil
  | bool (b : Bool)
  | int (n : Int64)
  | float (x : Float)
  | str (s : Octets)
  | table (ref : Nat)
  | func (ref : Nat)
  | builtin (f : Builtin)
  /-- An error that is no script's, with its text. -/
  | failure (text : String)
  deriving DecidableEq

namespace Value

instance : Inhabited Value := ⟨nil⟩

/-- The string of a text. -/
def ofString (s : String) : Value := str (Octets.ofString s)

/-- The type that a value has in scripts. -/
def typeName : Value → String
  | nil => "nil"
  | bool _ => "boolean"
  | int _ => "number"
  | float _ => "number"
  | str _ => "string"
  | table _ => "table"
  | func _ => "function"
  | builtin _ => "function"
  | failure _ => "userdata"

/-- Does a value count as true? -/
def isTrue : Value → Bool
  | nil => false
  | bool b => b
  | _ => true

/-- The double of an integer. -/
def toFloat (n : Int64) : Float :=
  Decimal.ofInt n.toInt

/-- The integer that a double is, if it is one of 64 bits. -/
def floatToInt? (x : Float) : Option Int64 :=
  match (Decimal.Binary64.ofFloat x).integer? with
  | some n => if -(2 ^ (63 : Nat)) ≤ n ∧ n < 2 ^ (63 : Nat) then some (Int64.ofInt n) else none
  | none => none

/-- Compares an integer with a double that is a number. -/
def orderIntFloat (n : Int64) (x : Float) : Ordering :=
  match Decimal.Binary64.ofFloat x with
  | .nan => .lt
  | .infinite negative => if negative then .gt else .lt
  | .finite negative m q =>
    let left : Int := n.toInt * 2 ^ (-q).toNat
    let magnitude : Int := m * 2 ^ q.toNat
    compare left (if negative then -magnitude else magnitude)

/-- Equality without metamethods.  An integer equals the double of the same value. -/
def rawEq : Value → Value → Bool
  | float x, float y => x == y
  | int n, float x => !x.isNaN && orderIntFloat n x == .eq
  | float x, int n => !x.isNaN && orderIntFloat n x == .eq
  | a, b => a = b

/-! ### Keys -/

/-- A value as a key: a double that is an integer counts as that integer. -/
def toKey : Value → Value
  | float x =>
    match floatToInt? x with
    | some n => int n
    | none => float x
  | v => v

/-- The place of a value's kind in the order of keys. -/
def rank : Value → Nat
  | nil => 0
  | bool _ => 1
  | int _ => 2
  | float _ => 3
  | str _ => 4
  | table _ => 5
  | func _ => 6
  | builtin _ => 7
  | failure _ => 8

/-- The texts of builtins differ where builtins do. -/
def builtinKey : Builtin → Nat × Nat × Octets
  | .base f => (0, f.ctorIdx, .empty)
  | .string f => (1, f.ctorIdx, .empty)
  | .table f => (2, f.ctorIdx, .empty)
  | .math f => (3, f.ctorIdx, .empty)
  | .stringArithmetic f => (4, f.ctorIdx, .empty)
  | .nextPosition => (5, 0, .empty)
  | .chooseTranslation locale => (6, 0, locale)

def orderBuiltins (a b : Builtin) : Ordering :=
  let (i, j, s) := builtinKey a
  let (i', j', s') := builtinKey b
  (compare i i').then ((compare j j').then (s.order s'))

/-- An order in which only equal keys are equal.  Its only use is to find keys again. -/
def order : Value → Value → Ordering
  | bool a, bool b => compare a b
  | int a, int b => compare a b
  | float a, float b => compare a.toBits b.toBits
  | str a, str b => a.order b
  | table a, table b => compare a b
  | func a, func b => compare a b
  | builtin a, builtin b => orderBuiltins a b
  | failure a, failure b => compare a b
  | a, b => compare a.rank b.rank

end Value

end LuaConfig.Lua
