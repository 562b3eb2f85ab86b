/-
Strings in quotes.

A string is read octet by octet; what an octet means depends on what stands before it, which is the
`Mode`.  A line that ends inside the string ends the reading, unless its end is escaped.
-/
import LuaConfig.Lua.Token.Basic

namespace LuaConfig.Lua.Quoted

-- powers are the built-in ones
attribute [local instance (2000)] instPowNat

/-- Where in a string the reading stands. -/
inductive Mode where
  | plain
  /-- Behind a backslash. -/
  | escape
  /-- Inside a decimal escape of value `n` with `count` digits. -/
  | decimal (n count : Nat)
  /-- Inside a hexadecimal escape that lacks `owed` digits. -/
  | hex (n owed : Nat)
  /-- Behind the letter of a code point escape. -/
  | codePoint
  /-- Inside the braces of a code point escape. -/
  | codeDigits (n : Nat) (first : Bool)
  /-- Behind the escaped line end `b`, which an octet of the other kind belongs to. -/
  | lineEnd (b : UInt8)
  /-- Inside white space that is left out; `b` is the line end that has just been read, or zero. -/
  | skipping (b : UInt8)

/-- What has become of the string after an octet. -/
inductive Progress where
  | more (mode : Mode) (out : Octets) (line : Nat)
  | closed (out : Octets)
  | broken

def isLineEnd (b : UInt8) : Bool := b = 10 ∨ b = 13

/-- Do two octets make one line end? -/
def isPair (a b : UInt8) : Bool := (a = 10 ∧ b = 13) ∨ (a = 13 ∧ b = 10)

/-- The octets of a code point below `2 ^ 31`, in the manner of UTF-8. -/
def encode (n : Nat) : List UInt8 :=
  let tail (shift : Nat) : UInt8 := UInt8.ofNat (0x80 + n / 64 ^ shift % 64)
  if n < 0x80 then [UInt8.ofNat n]
  else if n < 0x800 then [UInt8.ofNat (0xC0 + n / 64), tail 0]
  else if n < 0x10000 then [UInt8.ofNat (0xE0 + n / 64 ^ (2 : Nat)), tail 1, tail 0]
  else if n < 0x200000 then [UInt8.ofNat (0xF0 + n / 64 ^ (3 : Nat)), tail 2, tail 1, tail 0]
  else if n < 0x4000000 then
    [UInt8.ofNat (0xF8 + n / 64 ^ (4 : Nat)), tail 3, tail 2, tail 1, tail 0]
  else [UInt8.ofNat (0xFC + n / 64 ^ (5 : Nat)), tail 4, tail 3, tail 2, tail 1, tail 0]

def append (out : Octets) (octets : List UInt8) : Octets :=
  octets.foldl ByteArray.push out

/-- The octet of an escape of one letter. -/
def letter? (b : UInt8) : Option UInt8 :=
  [(97, 7), (98, 8), (102, 12), (110, 10), (114, 13), (116, 9), (118, 11), (92, 92), (34, 34),
   (39, 39)].lookup b

/-- An octet where anything may follow. -/
def stepPlain (quote b : UInt8) (out : Octets) (line : Nat) : Progress :=
  if b = quote then .closed out
  else if b = 92 then .more .escape out line
  else if isLineEnd b then .broken
  else .more .plain (out.push b) line

/-- An octet behind a backslash. -/
def stepEscape (b : UInt8) (out : Octets) (line : Nat) : Progress :=
  match letter? b with
  | some c => .more .plain (out.push c) line
  | none =>
    if isLineEnd b then .more (.lineEnd b) (out.push 10) (line + 1)
    else if b = 120 then .more (.hex 0 2) out line
    else if b = 117 then .more .codePoint out line
    else if b = 122 then .more (.skipping 0) out line
    else if Octets.isDigit b then .more (.decimal (b.toNat - 48) 1) out line
    else .broken

/-- One octet of a string that ends at `quote`. -/
def step (quote : UInt8) (mode : Mode) (b : UInt8) (out : Octets) (line : Nat) : Progress :=
  match mode with
  | .plain => stepPlain quote b out line
  | .escape => stepEscape b out line
  | .decimal n count =>
    if count < 3 ∧ Octets.isDigit b then .more (.decimal (10 * n + (b.toNat - 48)) (count + 1)) out line
    else if n < 256 then stepPlain quote b (out.push (UInt8.ofNat n)) line
    else .broken
  | .hex n owed =>
    if Octets.isHexDigit b then
      let n := 16 * n + Octets.hexValue b
      if owed = 1 then .more .plain (out.push (UInt8.ofNat n)) line
      else .more (.hex n (owed - 1)) out line
    else .broken
  | .codePoint => if b = 123 then .more (.codeDigits 0 true) out line else .broken
  | .codeDigits n first =>
    if Octets.isHexDigit b then
      let n := 16 * n + Octets.hexValue b
      if n < 2 ^ (31 : Nat) then .more (.codeDigits n false) out line else .broken
    else if b = 125 ∧ first = false then .more .plain (append out (encode n)) line
    else .broken
  | .lineEnd a =>
    if isPair a b then .more .plain out line else stepPlain quote b out line
  | .skipping a =>
    if isPair a b then .more (.skipping 0) out line
    else if isLineEnd b then .more (.skipping b) out (line + 1)
    else if Octets.isSpace b then .more (.skipping 0) out line
    else stepPlain quote b out line

/-- Reads a string to its closing quote; `out` is what it holds so far. -/
def scan (quote : UInt8) (mode : Mode) (out : Octets) (line : Nat) : List UInt8 → Scan
  | [] => ⟨.malformed, line, []⟩
  | b :: rest =>
    match step quote mode b out line with
    | .more mode out line => scan quote mode out line rest
    | .closed out => ⟨.string out, line, rest⟩
    | .broken => ⟨.malformed, line, rest⟩

end LuaConfig.Lua.Quoted
