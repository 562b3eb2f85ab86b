/-
Octet strings as text.

`decodeLossy` reads octets as UTF-8 and writes U+FFFD for each maximal part that no character can
begin with: a lead octet with as many of its continuation octets as fit, or a single octet that
can stand nowhere.  Valid text comes back unchanged.
-/
namespace LuaConfig.Text

/-- A character under way: the bits read so far, how many octets are owed beside the next one, and
the range of the next one. -/
structure Pending where
  bits : Nat
  owed : Nat
  low : UInt8
  high : UInt8

/-- What an octet is where a character may begin. -/
inductive Lead where
  | whole (c : Char)
  | opens (pending : Pending)
  | stray

/-- The well-formed beginnings.  Overlong forms, surrogates and code points above U+10FFFF are
ruled out by the range of the second octet. -/
def Lead.ofOctet (b : UInt8) : Lead :=
  let n := b.toNat
  if b < 0x80 then .whole (Char.ofNat n)
  else if b < 0xC2 then .stray
  else if b < 0xE0 then .opens ⟨n % 32, 0, 0x80, 0xBF⟩
  else if b = 0xE0 then .opens ⟨n % 16, 1, 0xA0, 0xBF⟩
  else if b = 0xED then .opens ⟨n % 16, 1, 0x80, 0x9F⟩
  else if b < 0xF0 then .opens ⟨n % 16, 1, 0x80, 0xBF⟩
  else if b = 0xF0 then .opens ⟨n % 8, 2, 0x90, 0xBF⟩
  else if b < 0xF4 then .opens ⟨n % 8, 2, 0x80, 0xBF⟩
  else if b = 0xF4 then .opens ⟨n % 8, 2, 0x80, 0x8F⟩
  else .stray

/-- U+FFFD, written for what cannot be read. -/
def replacement : Char := Char.ofNat 0xFFFD

/-- Takes an octet where a character may begin. -/
def begin (out : String) (b : UInt8) : String × Option Pending :=
  match Lead.ofOctet b with
  | .whole c => (out.push c, none)
  | .opens pending => (out, some pending)
  | .stray => (out.push replacement, none)

/-- Reads the octets that are left, with the text so far and the character under way. -/
def decodeFrom (out : String) : Option Pending → List UInt8 → String
  | none, [] => out
  | some _, [] => out.push replacement
  | none, b :: rest =>
    let (out, pending) := begin out b
    decodeFrom out pending rest
  | some p, b :: rest =>
    if p.low ≤ b ∧ b ≤ p.high then
      let bits := p.bits * 64 + b.toNat % 64
      match p.owed with
      | 0 => decodeFrom (out.push (Char.ofNat bits)) none rest
      | owed + 1 => decodeFrom out (some ⟨bits, owed, 0x80, 0xBF⟩) rest
    else
      let (out, pending) := begin (out.push replacement) b
      decodeFrom out pending rest

/-- The text of an octet string. -/
def decodeLossy (octets : ByteArray) : String :=
  match String.fromUTF8? octets with
  | some text => text
  | none => decodeFrom "" none octets.toList

end LuaConfig.Text
