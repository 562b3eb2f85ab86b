/-
Operations on numbers.

Integers wrap around.  Division and powers are those of doubles; floor division and the remainder
that belongs to it go toward negative infinity, for integers and doubles alike.
-/
import LuaConfig.Lua.Code.Basic

namespace LuaConfig.Lua

-- powers are the built-in ones
attribute [local instance (2000)] instPowNat

namespace Number

/-- The number that a value is, if it is one. -/
def ofValue? : Value → Option Number
  | .int n => some (.int n)
  | .float x => some (.float x)
  | _ => none

def toValue : Number → Value
  | int n => .int n
  | float x => .float x

def toFloat : Number → Float
  | int n => Value.toFloat n
  | float x => x

/-- The integer that a number is, if it is one. -/
def toInt? : Number → Option Int64
  | int n => some n
  | float x => Value.floatToInt? x

/-! ### Arithmetic -/

/-- The remainder of `a / b` with the sign of `a`, computed exactly. -/
def remainder (a b : Float) : Float :=
  match Decimal.Binary64.ofFloat a, Decimal.Binary64.ofFloat b with
  | .finite negative m q, .finite _ n r =>
    if n = 0 then 0 / 0
    else
      let e := min q r
      let rest := m * 2 ^ (q - e).toNat % (n * 2 ^ (r - e).toNat)
      if rest = 0 then Decimal.ofMagnitudeBits negative 0
      else Decimal.nearest negative (rest * 2 ^ e.toNat) (2 ^ (-e).toNat)
  | .finite .., .infinite _ => a
  | _, _ => 0 / 0

/-- The remainder with the sign of `b`. -/
def floatMod (a b : Float) : Float :=
  let r := remainder a b
  if (0 < r ∧ b < 0) ∨ (r < 0 ∧ 0 < b) then r + b else r

/-- The quotient of integers, rounded down. -/
def intDiv (a b : Int64) : Int64 :=
  if b = -1 then 0 - a
  else
    let q := a / b
    if a % b ≠ 0 ∧ (a ^^^ b) < 0 then q - 1 else q

/-- The remainder that belongs to `intDiv`. -/
def intMod (a b : Int64) : Int64 :=
  if b = -1 then 0
  else
    let r := a % b
    if r ≠ 0 ∧ (r ^^^ b) < 0 then r + b else r

def power (a b : Float) : Float :=
  if b == 2 then a * a else a.pow b

/-- Arithmetic on doubles; the sign of a number changes with `unm`. -/
def floatArithmetic (op : Arithmetic) (a b : Float) : Float :=
  match op with
  | .add => a + b
  | .sub => a - b
  | .mul => a * b
  | .mod => floatMod a b
  | .pow => power a b
  | .div => a / b
  | .idiv => (a / b).floor
  | .unm => -a

/-- Arithmetic; a message where an integer would be divided by zero. -/
def arithmetic (op : Arithmetic) (a b : Number) : Except String Number :=
  match op, a, b with
  | .add, int a, int b => .ok (int (a + b))
  | .sub, int a, int b => .ok (int (a - b))
  | .mul, int a, int b => .ok (int (a * b))
  | .unm, int a, _ => .ok (int (0 - a))
  | .idiv, int a, int b =>
    if b = 0 then .error "attempt to divide by zero" else .ok (int (intDiv a b))
  | .mod, int a, int b =>
    if b = 0 then .error "attempt to perform 'n%0'" else .ok (int (intMod a b))
  | op, a, b => .ok (float (floatArithmetic op a.toFloat b.toFloat))

/-! ### Bits -/

/-- Shifts to the left, or to the right where `n` is negative; zeros come in at either end. -/
def shiftLeft (a n : Int64) : Int64 :=
  let bits := a.toUInt64
  if n ≤ -64 ∨ 64 ≤ n then 0
  else if 0 ≤ n then (bits <<< n.toUInt64).toInt64
  else (bits >>> (0 - n).toUInt64).toInt64

def bitwise (op : Bitwise) (a b : Int64) : Int64 :=
  match op with
  | .and => a &&& b
  | .or => a ||| b
  | .xor => a ^^^ b
  | .shiftLeft => shiftLeft a b
  | .shiftRight => if b = Int64.minValue then 0 else shiftLeft a (0 - b)

/-! ### Order -/

/-- Is `a < b`? -/
def less : Number → Number → Bool
  | int a, int b => a < b
  | float a, float b => a < b
  | int a, float b => !b.isNaN && Value.orderIntFloat a b == .lt
  | float a, int b => !a.isNaN && Value.orderIntFloat b a == .gt

/-- Is `a ≤ b`? -/
def lessEqual : Number → Number → Bool
  | int a, int b => a ≤ b
  | float a, float b => a ≤ b
  | int a, float b => !b.isNaN && Value.orderIntFloat a b != .gt
  | float a, int b => !a.isNaN && Value.orderIntFloat b a != .lt

/-! ### Text -/

/-- The text of a number as scripts show it. -/
def text : Number → Octets
  | int n => Octets.ofString (Numeral.ofInt n)
  | float x => Octets.ofString (Numeral.ofFloat x)

end Number

namespace Value

/-- The string that a value stands for where strings are joined. -/
def joinText? : Value → Option Octets
  | str s => some s
  | int n => some (Number.int n).text
  | float x => some (Number.float x).text
  | _ => none

/-- The number that a value stands for in arithmetic: it is one, or a string that is a numeral. -/
def number? : Value → Option Number
  | int n => some (.int n)
  | float x => some (.float x)
  | str s => Numeral.ofOctets? s
  | _ => none

end Value

end LuaConfig.Lua
