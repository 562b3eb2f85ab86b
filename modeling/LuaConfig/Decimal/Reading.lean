/-
Reading decimal text as a double.

`ofDecimal` rounds `± digits · 10 ^ exponent` to the nearest double.  `scanDecimal?` reads the
longest unsigned decimal numeral at the head of a text (digits, at most one point, an exponent if
it is complete), and `float?` and `int?` read a whole text with an optional sign; the first also
knows the words for infinity and not-a-number, in either case.
-/
import LuaConfig.Decimal.Shortest

namespace LuaConfig.Decimal

-- powers are the built-in ones
attribute [local instance (2000)] instPowNat

/-- The double nearest to `± digits · 10 ^ exponent`.  Exponents that are certain to overflow or to
vanish are cut off before the power is formed. -/
def ofDecimal (negative : Bool) (digits : Nat) (exponent : Int) : Float :=
  let size : Int := Nat.log2 digits
  if digits = 0 ∨ (size + 1) * 302 / 1000 + exponent < -400 then ofMagnitudeBits negative 0
  else if 400 < exponent then ofMagnitudeBits negative infinityBits
  else nearest negative (digits * 10 ^ exponent.toNat) (10 ^ (-exponent).toNat)

/-- The value of a decimal digit. -/
def digit? (c : Char) : Option Nat :=
  if '0' ≤ c ∧ c ≤ '9' then some (c.toNat - '0'.toNat) else none

/-- Reads digits onto `n`; returns the number, how many digits there were, and the rest. -/
def scanDigits (n count : Nat) : List Char → Nat × Nat × List Char
  | [] => (n, count, [])
  | c :: rest =>
    match digit? c with
    | some d => scanDigits (10 * n + d) (count + 1) rest
    | none => (n, count, c :: rest)

/-- An optional sign. -/
def scanSign : List Char → Bool × List Char
  | '-' :: rest => (true, rest)
  | '+' :: rest => (false, rest)
  | rest => (false, rest)

/-- The exponent part at the head of a text: `0` and nothing read where there is none. -/
def scanExponent (text : List Char) : Int × List Char :=
  match text with
  | c :: rest =>
    if c = 'e' ∨ c = 'E' then
      let (negative, afterSign) := scanSign rest
      let (n, count, left) := scanDigits 0 0 afterSign
      if count = 0 then (0, text) else (if negative then -(n : Int) else n, left)
    else (0, text)
  | [] => (0, text)

/-- An unsigned numeral at the head of a text: digits with at most one point among them and an
optional exponent.  There has to be a digit before the exponent. -/
def scanDecimal? (text : List Char) : Option (Scaled × List Char) :=
  let (whole, wholeCount, afterWhole) := scanDigits 0 0 text
  let (digits, places, afterFraction) :=
    match afterWhole with
    | '.' :: rest => scanDigits whole 0 rest
    | rest => (whole, 0, rest)
  if wholeCount + places = 0 then none
  else
    let (exponent, left) := scanExponent afterFraction
    some (⟨digits, exponent - places⟩, left)

/-- The words for the numbers that have no digits. -/
def special? (negative : Bool) (text : List Char) : Option Float :=
  let word := String.ofList (text.map Char.toLower)
  if word = "inf" ∨ word = "infinity" then some (ofMagnitudeBits negative infinityBits)
  else if word = "nan" then some (ofMagnitudeBits negative (infinityBits + 2 ^ (51 : Nat)))
  else none

/-- The double that a whole text stands for. -/
def float? (text : List Char) : Option Float :=
  let (negative, rest) := scanSign text
  match scanDecimal? rest with
  | some (d, []) => some (ofDecimal negative d.digits d.exponent)
  | some _ => none
  | none => special? negative rest

/-- The integer that a whole text of digits stands for. -/
def int? (text : List Char) : Option Int :=
  let (negative, rest) := scanSign text
  match scanDigits 0 0 rest with
  | (n, count, []) => if count = 0 then none else some (if negative then -(n : Int) else n)
  | _ => none

end LuaConfig.Decimal
