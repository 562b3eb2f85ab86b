/-
Values in octets.

A format says of one item after the other how a value is laid out in octets: how many there are, in
which order, and whether octets are left out in front so that the item stands at a multiple of its
size.
-/
import LuaConfig.Lua.Octets

namespace LuaConfig.Lua

-- powers are the built-in ones
attribute [local instance (2000)] instPowNat

namespace Pack

/-- What holds for all items from here on. -/
structure Header where
  little : Bool := true
  maxAlignment : Nat := 1

/-- What an item of a format is. -/
inductive Item where
  | int
  | unsigned
  | single
  | double
  /-- A string of a given size. -/
  | fixed
  /-- A string behind its length. -/
  | counted
  /-- A string in front of a zero. -/
  | terminated
  | padding
  /-- Room up to where the next item may stand. -/
  | alignment
  | nothing
  deriving DecidableEq

/-- What is wrong with a format: the format itself, or what its caller makes of it. -/
inductive Fault where
  | message (text : String)
  | refusal (why : String)

/-- An item with its size, and the header and the text behind it. -/
structure Directive where
  item : Item
  size : Nat := 0
  header : Header
  rest : List UInt8

/-- The most octets that an integer may have. -/
def maxSize : Nat := 16

/-- The octets of an integer of the language. -/
def wordSize : Nat := 8

/-- The largest number to which a digit is added. -/
def maxPrefix : Nat := 214748363

def digits (n : Nat) : List UInt8 → Nat × List UInt8
  | [] => (n, [])
  | b :: rest =>
    if Octets.isDigit b ∧ n ≤ maxPrefix then digits (10 * n + (b.toNat - 48)) rest
    else (n, b :: rest)

/-- A number, if one begins here. -/
def number? : List UInt8 → Option (Nat × List UInt8)
  | [] => none
  | b :: rest => if Octets.isDigit b then some (digits 0 (b :: rest)) else none

/-- The size of an integer, if one is given. -/
def sizeOr (otherwise : Nat) (text : List UInt8) : Except Fault (Nat × List UInt8) :=
  let (n, rest) := (number? text).getD (otherwise, text)
  if 0 < n ∧ n ≤ maxSize then .ok (n, rest)
  else
    .error (.message ("integral size (" ++ Nat.repr n ++ ") out of limits [1," ++
      Nat.repr maxSize ++ "]"))

/-- The directive that a letter begins. -/
def directive (h : Header) (letter : UInt8) (rest : List UInt8) : Except Fault Directive :=
  let plain (item : Item) (size : Nat) : Except Fault Directive := .ok ⟨item, size, h, rest⟩
  let sized (item : Item) (otherwise : Nat) : Except Fault Directive := do
    let (size, rest) ← sizeOr otherwise rest
    return ⟨item, size, h, rest⟩
  match Char.ofNat letter.toNat with
  | 'b' => plain .int 1
  | 'B' => plain .unsigned 1
  | 'h' => plain .int 2
  | 'H' => plain .unsigned 2
  | 'l' => plain .int 8
  | 'L' => plain .unsigned 8
  | 'j' => plain .int wordSize
  | 'J' => plain .unsigned wordSize
  | 'T' => plain .unsigned 8
  | 'f' => plain .single 4
  | 'n' => plain .double 8
  | 'd' => plain .double 8
  | 'i' => sized .int 4
  | 'I' => sized .unsigned 4
  | 's' => sized .counted 8
  | 'c' =>
    match number? rest with
    | some (size, rest) => .ok ⟨.fixed, size, h, rest⟩
    | none => .error (.message "missing size for format option 'c'")
  | 'z' => plain .terminated 0
  | 'x' => plain .padding 1
  | 'X' => plain .alignment 0
  | ' ' => plain .nothing 0
  | '<' => .ok ⟨.nothing, 0, { h with little := true }, rest⟩
  | '>' => .ok ⟨.nothing, 0, { h with little := false }, rest⟩
  | '=' => .ok ⟨.nothing, 0, { h with little := true }, rest⟩
  | '!' => do
    let (size, rest) ← sizeOr 8 rest
    return ⟨.nothing, 0, { h with maxAlignment := size }, rest⟩
  | c => .error (.message ("invalid format option '" ++ String.singleton c ++ "'"))

/-- The octets that are left out in front of an item, `offset` being where it would stand. -/
def gap (h : Header) (alignment offset : Nat) : Except Fault Nat :=
  let alignment := min alignment h.maxAlignment
  if alignment ≤ 1 then .ok 0
  else if alignment &&& (alignment - 1) ≠ 0 then
    .error (.refusal "format asks for alignment not power of 2")
  else .ok ((alignment - offset % alignment) % alignment)

/-- The next directive of a format, and the octets that are left out in front of its item. -/
def next (h : Header) (offset : Nat) (letter : UInt8) (rest : List UInt8) :
    Except Fault (Directive × Nat) := do
  let d ← directive h letter rest
  match d.item with
  | .alignment =>
    -- the room is made for the item behind, which is read past
    let refusal := Fault.refusal "invalid next option for option 'X'"
    match d.rest with
    | [] => .error refusal
    | letter :: rest =>
      let following ← directive h letter rest
      if following.item = .fixed ∨ following.size = 0 then .error refusal
      else
        let n ← gap following.header following.size offset
        return ({ d with header := following.header, rest := following.rest }, n)
  | .fixed => return (d, 0)
  | _ => return (d, ← gap d.header d.size offset)

/-! ### Integers -/

/-- The octets of a natural number, lowest first. -/
def octetsOf : (size n : Nat) → List UInt8
  | 0, _ => []
  | size + 1, n => UInt8.ofNat n :: octetsOf size (n / 256)

/-- The number of octets, lowest first. -/
def ofOctets : List UInt8 → Nat
  | [] => 0
  | b :: rest => b.toNat + 256 * ofOctets rest

/-- The octets of an item in their order. -/
def ordered (little : Bool) (octets : List UInt8) : List UInt8 :=
  if little then octets else octets.reverse

/-- The octets of an integer; beyond its own they repeat its sign. -/
def packInt (h : Header) (size : Nat) (n : Int) : Octets :=
  Octets.ofList (ordered h.little (octetsOf size (n % 2 ^ (8 * size)).toNat))

/-- The integer of octets, if it fits. -/
def unpackInt (h : Header) (signed : Bool) (s : Octets) : Except Fault Int64 :=
  let size := s.size
  let n := ofOctets (ordered h.little s.toList)
  let value : Int := if signed ∧ 2 ^ (8 * size) ≤ 2 * n then (n : Int) - 2 ^ (8 * size) else n
  let fits := if signed then -(2 ^ (63 : Nat)) ≤ value ∧ value < 2 ^ (63 : Nat)
    else value < 2 ^ (64 : Nat)
  if fits then .ok (Int64.ofInt value)
  else .error (.message (Nat.repr size ++ "-byte integer does not fit into Lua Integer"))

/-- Can an integer be laid out in so many octets? -/
def fits (signed : Bool) (size : Nat) (n : Int64) : Bool :=
  if wordSize ≤ size then true
  else if signed then -(2 ^ (8 * size - 1) : Int) ≤ n.toInt ∧ n.toInt < 2 ^ (8 * size - 1)
  else n.toUInt64.toNat < 2 ^ (8 * size)

end Pack

end LuaConfig.Lua
