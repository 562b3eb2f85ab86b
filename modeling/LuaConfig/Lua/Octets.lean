/-
Strings of octets, the strings of scripts.

They need not be text.  Where they are shown as text they are decoded by `Text.decodeLossy`.
-/
import LuaConfig.Text.Utf8

namespace LuaConfig.Lua

/-- A string of a script. -/
abbrev Octets : Type := ByteArray

namespace Octets

/-- The octets of a text. -/
def ofString (s : String) : Octets := s.toUTF8

def ofList (octets : List UInt8) : Octets := octets.toByteArray

/-- The text that is shown for a string. -/
def text (s : Octets) : String := Text.decodeLossy s

/-- The octet at position `i`, counted from zero; zero beyond the end. -/
def octet (s : Octets) (i : Nat) : UInt8 :=
  if h : i < s.size then s[i] else 0

/-- Compares `a` and `b` from position `i` on, for `fuel` octets at most. -/
def compareFrom (a b : Octets) : (fuel i : Nat) → Ordering
  | 0, _ => .eq
  | fuel + 1, i =>
    if ha : i < a.size then
      if hb : i < b.size then
        if a[i] < b[i] then .lt
        else if b[i] < a[i] then .gt
        else compareFrom a b fuel (i + 1)
      else .gt
    else if i < b.size then .lt else .eq

/-- The order of the dictionary over the values of the octets. -/
def order (a b : Octets) : Ordering :=
  compareFrom a b (a.size + 1) 0

/-- Does `pattern` stand in `s` at position `i`? -/
def matchesAt (s pattern : Octets) (i : Nat) : Bool :=
  s.extract i (i + pattern.size) == pattern

/-- The first position from `i` on at which `pattern` stands in `s`, `fuel` positions being
tried. -/
def findFrom? (s pattern : Octets) : (fuel i : Nat) → Option Nat
  | 0, _ => none
  | fuel + 1, i =>
    if s.size < i + pattern.size then none
    else if matchesAt s pattern i then some i
    else findFrom? s pattern fuel (i + 1)

/-- Applies a function to every octet. -/
def map (f : UInt8 → UInt8) (s : Octets) : Octets :=
  s.foldl (fun out b => out.push (f b)) (ByteArray.emptyWithCapacity s.size)

def reverse (s : Octets) : Octets :=
  (s.foldl (fun out b => b :: out) []).toByteArray

/-- `n` copies of a string with a separator between them, put behind `out`. -/
def repeatOnto (s separator : Octets) : (n : Nat) → (out : Octets) → Octets
  | 0, out => out
  | 1, out => out ++ s
  | n + 1, out => repeatOnto s separator n (out ++ s ++ separator)

/-- An ASCII letter made small. -/
def lower (b : UInt8) : UInt8 :=
  if 65 ≤ b ∧ b ≤ 90 then b + 32 else b

/-- An ASCII letter made a capital. -/
def upper (b : UInt8) : UInt8 :=
  if 97 ≤ b ∧ b ≤ 122 then b - 32 else b

/-! ### Classes of octets -/

def isDigit (b : UInt8) : Bool := 48 ≤ b ∧ b ≤ 57

def isLetter (b : UInt8) : Bool := (65 ≤ b ∧ b ≤ 90) ∨ (97 ≤ b ∧ b ≤ 122)

def isHexDigit (b : UInt8) : Bool := isDigit b ∨ (65 ≤ b ∧ b ≤ 70) ∨ (97 ≤ b ∧ b ≤ 102)

def isSpace (b : UInt8) : Bool := b = 32 ∨ (9 ≤ b ∧ b ≤ 13)

/-- The value of a hexadecimal digit. -/
def hexValue (b : UInt8) : Nat :=
  if isDigit b then b.toNat - 48 else (lower b).toNat - 87

/-- May a name begin with this octet? -/
def isNameStart (b : UInt8) : Bool := isLetter b ∨ b = 95

/-- May a name go on with this octet? -/
def isNameRest (b : UInt8) : Bool := isNameStart b ∨ isDigit b

end Octets

end LuaConfig.Lua
