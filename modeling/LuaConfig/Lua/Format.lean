/-
Conversions of formatted text.

A conversion is a percent sign, flags, a width, a precision and a letter.  Each letter allows some
of the flags; a text is filled up to the width with blanks, or with zeros behind its sign.
-/
import LuaConfig.Lua.Numeral

namespace LuaConfig.Lua

-- powers are the built-in ones
attribute [local instance (2000)] instPowNat

namespace Format

/-- What stands between the percent sign and the letter of a conversion. -/
structure Spec where
  left : Bool := false
  plus : Bool := false
  blank : Bool := false
  alternate : Bool := false
  zero : Bool := false
  width : Nat := 0
  precision : Option Nat := none

/-- The characters that may stand between the percent sign and the letter. -/
def isModifier (c : Char) : Bool :=
  "-+ #0123456789.".toList.contains c

/-- The largest number of those characters. -/
def maxModifiers : Nat := 20

/-- Sets the flag of a character. -/
def Spec.withFlag (spec : Spec) (c : Char) : Spec :=
  match c with
  | '-' => { spec with left := true }
  | '+' => { spec with plus := true }
  | ' ' => { spec with blank := true }
  | '#' => { spec with alternate := true }
  | '0' => { spec with zero := true }
  | _ => spec

/-- Reads the flags that a conversion allows. -/
def readFlags (allowed : List Char) (spec : Spec) : List Char → Spec × List Char
  | [] => (spec, [])
  | c :: rest =>
    if allowed.contains c then readFlags allowed (spec.withFlag c) rest else (spec, c :: rest)

/-- Reads at most two digits. -/
def readTwoDigits (text : List Char) : Nat × List Char :=
  let digits := (text.take 2).takeWhile Char.isDigit
  ((Decimal.scanDigits 0 0 digits).1, text.drop digits.length)

/-- Reads the modifiers of a conversion; nothing if it does not allow them. -/
def Spec.ofModifiers? (allowed : String) (allowsPrecision : Bool) (modifiers : List Char) :
    Option Spec :=
  let (spec, rest) := readFlags allowed.toList {} modifiers
  let (width, rest) := readTwoDigits rest
  let spec := { spec with width := width }
  match rest with
  | [] => some spec
  | '.' :: rest =>
    if allowsPrecision then
      let (precision, rest) := readTwoDigits rest
      if rest.isEmpty then some { spec with precision := some precision } else none
    else none
  | _ => none

/-- A text filled up with blanks. -/
def Spec.pad (spec : Spec) (text : Octets) : Octets :=
  let fill := Octets.ofList (List.replicate (spec.width - text.size) 32)
  if spec.left then text ++ fill else fill ++ text

/-- The sign of a number. -/
def Spec.sign (spec : Spec) (negative : Bool) : String :=
  if negative then "-" else if spec.plus then "+" else if spec.blank then " " else ""

/-- A number of a sign and digits, filled up; with zeros behind the sign where that is asked for
and `zeros` allows it. -/
def Spec.number (spec : Spec) (zeros : Bool) (sign digits : String) : Octets :=
  let missing := spec.width - (sign.length + digits.length)
  if spec.zero ∧ zeros ∧ !spec.left then
    Octets.ofString (sign ++ Decimal.zeros missing ++ digits)
  else spec.pad (Octets.ofString (sign ++ digits))

/-- Digits that are filled up to the precision; no digit at all for zero at precision zero. -/
def Spec.precise (spec : Spec) (digits : String) : String :=
  match spec.precision with
  | some p => if p = 0 ∧ digits = "0" then "" else Decimal.zeros (p - digits.length) ++ digits
  | none => digits

/-- An integer in decimal digits. -/
def signedInt (spec : Spec) (n : Int64) : Octets :=
  let value := n.toInt
  spec.number spec.precision.isNone (spec.sign (value < 0)) (spec.precise (Nat.repr value.natAbs))

/-- The digits of a number in a base, in small letters. -/
def digitsIn (base n : Nat) : String := String.ofList (Nat.toDigits base n)

/-- An integer without a sign, in the given base. -/
def unsignedInt (spec : Spec) (base : Nat) (capitals : Bool) (n : Int64) : Octets :=
  let value := n.toUInt64.toNat
  let digits := spec.precise (digitsIn base value)
  let lead :=
    if !spec.alternate then ""
    else if base = 16 ∧ value ≠ 0 then "0x"
    else if base = 8 ∧ !digits.startsWith "0" then "0"
    else ""
  let text := spec.number spec.precision.isNone lead digits
  if capitals then text.map Octets.upper else text

/-- A double by a layout. -/
def float (spec : Spec) (layout : Decimal.Layout) (capitals : Bool) (x : Float) : Octets :=
  let text := match Decimal.Binary64.ofFloat x with
    | .nan => spec.number false (spec.sign true) "nan"
    | .infinite negative => spec.number false (spec.sign negative) "inf"
    | .finite negative m q =>
      spec.number true (spec.sign negative)
        (layout.text (spec.precision.getD 6) spec.alternate m q)
  if capitals then text.map Octets.upper else text

/-- The hexadecimal digits of a mantissa of 52 bits behind the point, and the digit before it. -/
def hexMantissa (precision : Option Nat) (m : Nat) : Nat × String :=
  let places := precision.getD 13
  let kept := if places < 13 then Decimal.roundDiv m (2 ^ (4 * (13 - places))) else m
  let bits := 4 * min places 13
  let digits := digitsIn 16 (kept % 2 ^ bits)
  let padded := if bits = 0 then "" else Decimal.zeros (bits / 4 - digits.length) ++ digits
  let fraction := match precision with
    | none => Decimal.dropZeros padded 0
    | some p => padded ++ Decimal.zeros (p - 13)
  (kept / 2 ^ bits, fraction)

/-- A double in hexadecimal digits and a power of two. -/
def hexFloat (spec : Spec) (capitals : Bool) (x : Float) : Octets :=
  let text := match Decimal.Binary64.ofFloat x with
    | .nan => spec.number false (spec.sign true) "nan"
    | .infinite negative => spec.number false (spec.sign negative) "inf"
    | .finite negative m q =>
      let e : Int := if m = 0 then 0 else q + 52
      let (whole, fraction) := hexMantissa spec.precision m
      let point := if fraction.isEmpty ∧ !spec.alternate then "" else "."
      let exponent := (if e < 0 then "p-" else "p+") ++ Nat.repr e.natAbs
      spec.number true (spec.sign negative ++ "0x")
        (digitsIn 16 whole ++ point ++ fraction ++ exponent)
  if capitals then text.map Octets.upper else text

/-- A string, cut to the precision and filled up. -/
def string (spec : Spec) (s : Octets) : Octets :=
  match spec.precision with
  | some p => spec.pad (s.extract 0 p)
  | none => spec.pad s

/-- An octet inside a quoted string that a script can read back; `next` is the octet behind it. -/
def quotedOctet (b : UInt8) (next : Option UInt8) : List UInt8 :=
  if b = 34 ∨ b = 92 then [92, b]
  else if b = 10 then [92, 10]
  else if b < 32 ∨ b = 127 then
    let digits := Nat.repr b.toNat
    let padded := if next.any Octets.isDigit then Decimal.zeros (3 - digits.length) ++ digits else digits
    92 :: padded.toUTF8.toList
  else [b]

def quotedOctets : List UInt8 → List UInt8
  | [] => []
  | b :: rest => quotedOctet b rest.head? ++ quotedOctets rest

/-- A string in quotes that a script can read back. -/
def quoted (s : Octets) : Octets :=
  Octets.ofList (34 :: (quotedOctets s.toList ++ [34]))

/-- A double that a script can read back. -/
def quotedFloat (x : Float) : Octets :=
  match Decimal.Binary64.ofFloat x with
  | .nan => Octets.ofString "(0/0)"
  | .infinite negative => Octets.ofString (if negative then "-1e9999" else "1e9999")
  | .finite .. => hexFloat {} false x

/-- An integer that a script can read back. -/
def quotedInt (n : Int64) : Octets :=
  Octets.ofString (if n = Int64.minValue then "0x8000000000000000" else Numeral.ofInt n)

end Format

end LuaConfig.Lua
