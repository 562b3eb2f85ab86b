/-
Shortest decimal digits of a double.

The reals that read back as a given double form an interval around it.  `shortest` walks the grids
of multiples of `10 ^ k` from coarse to fine and takes the first grid with a point in the interval;
of two points on that grid the nearer one, a tie going as the caller says.
-/
import LuaConfig.Decimal.Binary64

namespace LuaConfig.Decimal

-- powers are the built-in ones
attribute [local instance (2000)] instPowNat

/-- The number `digits · 10 ^ exponent`. -/
structure Scaled where
  digits : Nat
  exponent : Int
  deriving DecidableEq, Repr

/-- Which of two equally near decimals is written. -/
inductive Tie where
  | up
  | even
  deriving DecidableEq, Repr

/-- The reals that read back as one double, in units of `1 / scale`: those strictly between `low`
and `high`, and also these two where `closed` holds. -/
structure Interval where
  scale : Nat
  low : Nat
  value : Nat
  high : Nat
  closed : Bool

/-- The interval around `m · 2 ^ q`.  Below a power of two the next double is only half as far. -/
def Interval.around (m : Nat) (q : Int) : Interval :=
  let unit := 2 ^ (q - 2).toNat
  let below := if m = 2 ^ (52 : Nat) ∧ -1074 < q then 1 else 2
  { scale := 2 ^ (2 - q).toNat
    low := (4 * m - below) * unit
    value := 4 * m * unit
    high := (4 * m + 2) * unit
    closed := m % 2 = 0 }

/-- Does `c · 10 ^ k` lie in the interval? -/
def Interval.holds (i : Interval) (k : Int) (c : Nat) : Bool :=
  let point := c * 10 ^ k.toNat * i.scale
  let stretch := 10 ^ (-k).toNat
  if i.closed then i.low * stretch ≤ point ∧ point ≤ i.high * stretch
  else i.low * stretch < point ∧ point < i.high * stretch

/-- The point of the interval on the grid of `10 ^ k` that is nearest to its value, if any is. -/
def Interval.onGrid? (i : Interval) (tie : Tie) (k : Int) : Option Nat :=
  let num := i.value * 10 ^ (-k).toNat
  let den := i.scale * 10 ^ k.toNat
  let floor := num / den
  let twice := 2 * (num % den)
  let upward := den < twice ∨ (twice = den ∧ (tie = .up ∨ floor % 2 = 1))
  match i.holds k floor, i.holds k (floor + 1) with
  | true, true => some (if upward then floor + 1 else floor)
  | true, false => some floor
  | false, true => some (floor + 1)
  | false, false => none

/-- Tries the grids `10 ^ k`, `10 ^ (k - 1)`, … and gives up after `fuel` of them. -/
def Interval.firstGrid? (i : Interval) (tie : Tie) : Nat → Int → Option Scaled
  | 0, _ => none
  | fuel + 1, k =>
    match i.onGrid? tie k with
    | some c => some ⟨c, k⟩
    | none => i.firstGrid? tie fuel (k - 1)

/-- Every digit of `m · 2 ^ q`. -/
def exactDecimal (m : Nat) (q : Int) : Scaled :=
  if 0 ≤ q then ⟨m * 2 ^ q.toNat, 0⟩ else ⟨m * 5 ^ (-q).toNat, q⟩

/-- A power of ten at or above `m · 2 ^ q`. -/
def topExponent (m : Nat) (q : Int) : Int :=
  ((Nat.log2 m : Int) + q + 1) * 30103 / 100000 + 2

/-- The shortest decimal that reads back as `m · 2 ^ q`, for a positive `m`. -/
def shortest (tie : Tie) (m : Nat) (q : Int) : Scaled :=
  ((Interval.around m q).firstGrid? tie 24 (topExponent m q)).getD (exactDecimal m q)

end LuaConfig.Decimal
