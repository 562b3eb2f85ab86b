/-
Numbers of scripts and their text.

A number is an integer of 64 bits or a double.  A numeral is read as an integer where it is written
as one and fits; hexadecimal integers wrap around.  Doubles are written with at most fourteen
digits, and so that they do not look like integers.
-/
import LuaConfig.Decimal.Places
import LuaConfig.Decimal.Reading
import LuaConfig.Lua.Octets

namespace LuaConfig.Lua

-- powers are the built-in ones
attribute [local instance (2000)] instPowNat

/-- A number: an integer or a double. -/
inductive Number where
  | int (n : Int64)
  | float (x : Float)
  deriving DecidableEq

namespace Numeral

/-- The characters of a string; octets beyond ASCII become characters that stand in no numeral. -/
def chars (s : List UInt8) : List Char :=
  s.map fun b => Char.ofNat b.toNat

/-- White space in front of a numeral and behind it. -/
def isSpace (c : Char) : Bool :=
  c = ' ' ∨ (9 ≤ c.toNat ∧ c.toNat ≤ 13)

def trim (text : List Char) : List Char :=
  ((text.dropWhile isSpace).reverse.dropWhile isSpace).reverse

/-- The value of a hexadecimal digit. -/
def hexDigit? (c : Char) : Option Nat :=
  if '0' ≤ c ∧ c ≤ '9' then some (c.toNat - '0'.toNat)
  else if 'a' ≤ c ∧ c ≤ 'f' then some (c.toNat - 'a'.toNat + 10)
  else if 'A' ≤ c ∧ c ≤ 'F' then some (c.toNat - 'A'.toNat + 10)
  else none

/-- Reads hexadecimal digits onto `n`; returns the number, how many there were, and the rest. -/
def scanHex (n count : Nat) : List Char → Nat × Nat × List Char
  | [] => (n, count, [])
  | c :: rest =>
    match hexDigit? c with
    | some d => scanHex (16 * n + d) (count + 1) rest
    | none => (n, count, c :: rest)

/-- The double nearest to `± mantissa · 2 ^ exponent`.  Exponents that are certain to overflow or
to vanish are cut off before the power is formed. -/
def ofBinary (negative : Bool) (mantissa : Nat) (exponent : Int) : Float :=
  let size : Int := Nat.log2 mantissa
  if mantissa = 0 ∨ size + exponent < -1100 then Decimal.ofMagnitudeBits negative 0
  else if 1100 < size + exponent then Decimal.ofMagnitudeBits negative Decimal.infinityBits
  else Decimal.nearest negative (mantissa * 2 ^ exponent.toNat) (2 ^ (-exponent).toNat)

/-- The binary exponent that ends a hexadecimal numeral: nothing, or `p` and digits. -/
def binaryExponent? : List Char → Option Int
  | [] => some 0
  | c :: rest =>
    if c = 'p' ∨ c = 'P' then
      let (negative, digits) := Decimal.scanSign rest
      match Decimal.scanDigits 0 0 digits with
      | (n, count, []) => if count = 0 then none else some (if negative then -(n : Int) else n)
      | _ => none
    else none

/-- A hexadecimal numeral behind its `0x`. -/
def hexadecimal? (negative : Bool) (text : List Char) : Option Number :=
  let (whole, wholeCount, rest) := scanHex 0 0 text
  let negated (n : Int64) : Int64 := if negative then -n else n
  match rest with
  | [] => if wholeCount = 0 then none else some (.int (negated (Int64.ofInt whole)))
  | c :: after =>
    let (digits, places, rest) := if c = '.' then scanHex whole 0 after else (whole, 0, rest)
    if wholeCount + places = 0 then none
    else (binaryExponent? rest).map fun e =>
      .float (ofBinary negative digits (e - 4 * (places : Int)))

/-- A decimal numeral. -/
def decimal? (negative : Bool) (text : List Char) : Option Number :=
  let limit : Nat := if negative then 2 ^ (63 : Nat) else 2 ^ (63 : Nat) - 1
  match Decimal.scanDigits 0 0 text with
  | (n, _ + 1, []) =>
    if n ≤ limit then some (.int (Int64.ofInt (if negative then -(n : Int) else n)))
    else some (.float (Decimal.ofDecimal negative n 0))
  | _ =>
    match Decimal.scanDecimal? text with
    | some (d, []) => some (.float (Decimal.ofDecimal negative d.digits d.exponent))
    | _ => none

/-- The number that a whole text stands for, white space and one sign being allowed around it. -/
def ofChars? (text : List Char) : Option Number :=
  match Decimal.scanSign (trim text) with
  | (negative, '0' :: x :: rest) =>
    if x = 'x' ∨ x = 'X' then hexadecimal? negative rest
    else decimal? negative ('0' :: x :: rest)
  | (negative, rest) => decimal? negative rest

/-- The number that a string stands for. -/
def ofOctets? (s : Octets) : Option Number :=
  ofChars? (chars s.toList)

/-- The integer that a text of digits of the given base stands for; it wraps around. -/
def inBase? (base : Nat) (text : List Char) : Option Int64 :=
  let digit? (c : Char) : Option Nat :=
    let value :=
      if '0' ≤ c ∧ c ≤ '9' then c.toNat - '0'.toNat
      else if 'a' ≤ c ∧ c ≤ 'z' then c.toNat - 'a'.toNat + 10
      else if 'A' ≤ c ∧ c ≤ 'Z' then c.toNat - 'A'.toNat + 10
      else base
    if value < base then some value else none
  let (negative, digits) := Decimal.scanSign (trim text)
  match digits with
  | [] => none
  | _ =>
    (digits.mapM digit?).map fun values =>
      let n : Nat := values.foldl (base * · + ·) 0
      Int64.ofInt (if negative then -(n : Int) else n)

/-- The text of a double by a layout. -/
def floatText (layout : Decimal.Layout) (precision : Nat) (alternate : Bool) (x : Float) :
    String :=
  match Decimal.Binary64.ofFloat x with
  | .nan => "-nan"
  | .infinite negative => Decimal.signed negative "inf"
  | .finite negative m q => Decimal.signed negative (layout.text precision alternate m q)

/-- The text of a double as scripts show it. -/
def ofFloat (x : Float) : String :=
  let text := floatText .general 14 false x
  if text.all fun c => c = '-' ∨ c.isDigit then text ++ ".0" else text

def ofInt (n : Int64) : String :=
  let value := n.toInt
  Decimal.signed (value < 0) (Nat.repr value.natAbs)

end Numeral

end LuaConfig.Lua
