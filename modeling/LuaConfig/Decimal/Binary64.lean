/-
Doubles as exact numbers.

A double is taken apart into sign, mantissa and power of two (`Binary64.ofFloat`), so that every
decision about its decimal text is made in exact arithmetic on naturals.  The way back is
`nearest`: the double closest to a quotient of naturals, a tie going to the even mantissa.

Layout used throughout: a finite double is `± m · 2 ^ q` with `m < 2 ^ 53` and `-1074 ≤ q`; it is
subnormal exactly when `m < 2 ^ 52`.  With `q = -1074` for the subnormals, the bits below the sign
are `(q + 1074) · 2 ^ 52 + m`, also when a carry takes `m` to `2 ^ 53`.
-/
namespace LuaConfig.Decimal

-- powers are the built-in ones
attribute [local instance (2000)] instPowNat

/-- What a double stands for. -/
inductive Binary64 where
  | nan
  | infinite (negative : Bool)
  /-- The number `mantissa · 2 ^ exponent`, or its negative. -/
  | finite (negative : Bool) (mantissa : Nat) (exponent : Int)
  deriving DecidableEq, Repr

/-- The bit of the sign. -/
def signBit : Nat := 2 ^ (63 : Nat)

/-- The bits of infinity; no finite double reaches them. -/
def infinityBits : Nat := 2047 * 2 ^ (52 : Nat)

/-- Reads the parts of a double off its bits. -/
def Binary64.ofBits (bits : Nat) : Binary64 :=
  let negative := signBit ≤ bits
  let field : Nat := bits / 2 ^ (52 : Nat) % 2048
  let fraction : Nat := bits % 2 ^ (52 : Nat)
  if field = 2047 then
    if fraction = 0 then .infinite negative else .nan
  else if field = 0 then .finite negative fraction (-1074)
  else .finite negative (2 ^ (52 : Nat) + fraction) ((field : Int) - 1075)

/-- The parts of a double. -/
def Binary64.ofFloat (x : Float) : Binary64 :=
  .ofBits x.toBits.toNat

/-- The double with the given bits below the sign. -/
def ofMagnitudeBits (negative : Bool) (bits : Nat) : Float :=
  Float.ofBits (UInt64.ofNat (if negative then signBit + bits else bits))

/-- `num / den` rounded to a natural number, a half going to the even neighbour. -/
def roundDiv (num den : Nat) : Nat :=
  let quotient := num / den
  let twice := 2 * (num % den)
  if twice < den then quotient
  else if den < twice then quotient + 1
  else quotient + quotient % 2

/-- The power of two by which `num / den` is measured: large enough that the quotient in these
units stays below `2 ^ 53`, and no smaller than the subnormals allow. -/
def unitExponent (num den : Nat) : Int :=
  let guess : Int := (Nat.log2 num : Int) - (Nat.log2 den : Int) - 53
  let scaled (q : Int) : Nat := num * 2 ^ (-q).toNat / (den * 2 ^ q.toNat)
  max (-1074) (if scaled guess < 2 ^ (53 : Nat) then guess else guess + 1)

/-- The bits below the sign of the double nearest to `num / den`. -/
def nearestBits (num den : Nat) : Nat :=
  if num = 0 then 0
  else
    let q := unitExponent num den
    let mantissa := roundDiv (num * 2 ^ (-q).toNat) (den * 2 ^ q.toNat)
    min infinityBits ((q + 1074).toNat * 2 ^ (52 : Nat) + mantissa)

/-- The double nearest to `± num / den`. -/
def nearest (negative : Bool) (num den : Nat) : Float :=
  ofMagnitudeBits negative (nearestBits num den)

/-- The double nearest to an integer. -/
def ofInt (n : Int) : Float :=
  nearest (n < 0) n.natAbs 1

/-- The integer part of a finite double, toward zero. -/
def Binary64.truncate? : Binary64 → Option Int
  | .finite negative m q =>
    let magnitude : Nat := if 0 ≤ q then m * 2 ^ q.toNat else m / 2 ^ (-q).toNat
    some (if negative then -(magnitude : Int) else magnitude)
  | _ => none

/-- The integer that a double is, if it is one. -/
def Binary64.integer? : Binary64 → Option Int
  | .finite negative m q =>
    if 0 ≤ q ∨ m % 2 ^ (-q).toNat = 0 then Binary64.truncate? (.finite negative m q) else none
  | _ => none

end LuaConfig.Decimal
