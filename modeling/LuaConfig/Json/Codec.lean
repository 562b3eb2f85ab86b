/-
Values as JSON.

A `Codec` writes the values of a type as documents and reads them back from text.  Records are
written as objects with their fields in order.  They are read from objects with the members in any
order, where unknown members are passed over and a name must not come twice, and from arrays with
the values in the order of the fields.

Readers count the levels of nesting that are left (`room`), so that no text can nest deeper than
`maxDepth`; values that are passed over may.
-/
import LuaConfig.Json.Document
import LuaConfig.Json.Reader
import LuaConfig.Record.Field

namespace LuaConfig.Json

-- powers are the built-in ones
attribute [local instance (2000)] instPowNat

/-- The levels of nesting that a text may have. -/
def maxDepth : Nat := 127

/-- How the values of a type are written and read. -/
structure Codec (α : Type) where
  write : α → Json
  read : (room : Nat) → Read α

/-- Enters an array or an object. -/
def enter {α : Type} (room : Nat) (inside : Nat → Except Fault α) : Except Fault α :=
  match room with
  | 0 => .error .malformed
  | room + 1 => inside room

/-! ### Simple values -/

def readText : Read String := fun text =>
  match skipBlank text with
  | '"' :: rest => readString rest
  | other => mismatchAt other

def readFlag : Read Bool := fun text =>
  match skipBlank text with
  | 't' :: rest => do .ok (true, ← readWord ['r', 'u', 'e'] rest)
  | 'f' :: rest => do .ok (false, ← readWord ['a', 'l', 's', 'e'] rest)
  | other => mismatchAt other

/-- A number of any form. -/
def readAnyNumber : Read Number := fun text =>
  match skipBlank text with
  | [] => .error .unfinished
  | c :: rest => if startsNumber c then readNumber (c :: rest) else mismatchAt (c :: rest)

/-- The double of a number. -/
def Number.toFloat : Number → Float
  | integer n => Decimal.ofInt n
  | float x => x

def readFloat : Read Float := fun text => do
  let (n, rest) ← readAnyNumber text
  .ok (n.toFloat, rest)

/-- An integer from `low` to `high`; a number with a fraction or an exponent is none. -/
def readInteger (low high : Int) : Read Int := fun text => do
  match ← readAnyNumber text with
  | (.integer n, rest) => if low ≤ n ∧ n ≤ high then .ok (n, rest) else .error .mismatch
  | (.float _, _) => .error .mismatch

def readWhole64 : Read Int64 := fun text => do
  let (n, rest) ← readInteger (-(2 ^ (63 : Nat))) (2 ^ (63 : Nat) - 1) text
  .ok (Int64.ofInt n, rest)

/-- Reads `null` as nothing. -/
def readOptional {α : Type} (value : Read α) : Read (Option α) := fun text =>
  match skipBlank text with
  | 'n' :: rest => do .ok (none, ← readWord ['u', 'l', 'l'] rest)
  | other => do
    let (a, rest) ← value other
    .ok (some a, rest)

def readLimit : Read (Option Nat) :=
  readOptional fun text => do
    let (n, rest) ← readInteger 0 (2 ^ (64 : Nat) - 1) text
    .ok (n.toNat, rest)

/-- The members of an object whose values are of no interest beyond being well-formed. -/
def readAnyMembers (value : Read Unit) : Nat → Bool → List Char → Except Fault (List Char)
  | 0, _, _ => .error .unfinished
  | fuel + 1, first, text =>
    match nextMember first text with
    | .error fault => .error fault
    | .ok (false, rest) => .ok rest
    | .ok (true, rest) => do
      let (_, rest) ← readString rest
      let ((), rest) ← value (← readColon rest)
      readAnyMembers value fuel false rest

/-- Any value: the scalar that it is, if it is one.  Arrays and objects are read to their end. -/
def readAny : (room : Nat) → Read (Option Scalar)
  | 0, text => readAnyLeaf text
  | room + 1, text =>
    match skipBlank text with
    | '[' :: rest => do
      let (_, rest) ← readElements (readAny room) (rest.length + 1) true [] rest
      .ok (none, rest)
    | '\x7b' :: rest => do
      let value : Read Unit := fun text => do
        let (_, rest) ← readAny room text
        .ok ((), rest)
      .ok (none, ← readAnyMembers value (rest.length + 1) true rest)
    | other => readAnyLeaf other
where
  /-- A value that is neither array nor object. -/
  readAnyLeaf (text : List Char) : Except Fault (Option Scalar × List Char) :=
    match skipBlank text with
    | [] => .error .unfinished
    | c :: rest =>
      if c = 'n' then do .ok (none, ← readWord ['u', 'l', 'l'] rest)
      else if c = 't' then do .ok (some (.bool true), ← readWord ['r', 'u', 'e'] rest)
      else if c = 'f' then do .ok (some (.bool false), ← readWord ['a', 'l', 's', 'e'] rest)
      else if c = '"' then do
        let (s, rest) ← readString rest
        .ok (some (.string s), rest)
      else if startsNumber c then do
        let (n, rest) ← readNumber (c :: rest)
        .ok (some (.number n.toFloat), rest)
      else .error .malformed

/-- A scalar.  What else stands in its place is read to its end before it is refused. -/
def readScalar (room : Nat) : Read Scalar := fun text => do
  match ← readAny room text with
  | (some v, rest) => .ok (v, rest)
  | (none, _) => .error .mismatch

def writeScalar : Scalar → Json
  | .bool b => .bool b
  | .number x => .float x
  | .string s => .string s

namespace Codec

def text : Codec String := ⟨.string, fun _ => readText⟩

def flag : Codec Bool := ⟨.bool, fun _ => readFlag⟩

def number : Codec Float := ⟨.float, fun _ => readFloat⟩

def whole : Codec Int64 := ⟨fun n => .integer n.toInt, fun _ => readWhole64⟩

def scalar : Codec Scalar := ⟨writeScalar, readScalar⟩

def choice : Codec (Option Scalar) :=
  ⟨fun v => v.elim .null writeScalar, fun room => readOptional (readScalar room)⟩

def limit : Codec (Option Nat) :=
  ⟨fun v => v.elim .null fun n => .integer n, fun _ => readLimit⟩

/-- Lists are arrays. -/
def list {α : Type} (element : Codec α) : Codec (List α) where
  write items := .array (items.map element.write)
  read room text :=
    match skipBlank text with
    | '[' :: rest =>
      enter room fun room => readElements (element.read room) (rest.length + 1) true [] rest
    | other => mismatchAt other

end Codec

/-! ### Records -/

/-- Where a field may be missing; its value is then that of the blank record. -/
inductive Presence where
  | optional
  | optionalInObjects
  | required
  deriving DecidableEq

/-- What a record consists of: its fields, and the record from which reading starts. -/
structure Schema (ρ : Type) where
  blank : ρ
  fields : List (Field ρ × Presence)

/-- A record under way: its value so far, and the keys of the fields that have been read. -/
abbrev Partial (ρ : Type) : Type :=
  ρ × List String

section Record

variable {ρ : Type} (codec : (kind : Kind) → Codec kind.Value)

/-- Reads the value of a field and puts it into a record. -/
def readField (room : Nat) (field : Field ρ) (record : ρ) : Read ρ := fun text => do
  let (v, rest) ← (codec field.kind).read room text
  .ok (field.set v record, rest)

/-- The members of an object that are left.  A name that comes again is refused before its value
is looked at. -/
def readMembers (schema : Schema ρ) (room : Nat) :
    Nat → Bool → Partial ρ → List Char → Except Fault (Partial ρ × List Char)
  | 0, _, _, _ => .error .unfinished
  | fuel + 1, first, (record, seen), text =>
    match nextMember first text with
    | .error fault => .error fault
    | .ok (false, rest) => .ok ((record, seen), rest)
    | .ok (true, rest) => do
      let (name, rest) ← readString rest
      match schema.fields.find? (·.1.key == name) with
      | none =>
        let rest ← skip (← readColon rest)
        readMembers schema room fuel false (record, seen) rest
      | some (field, _) =>
        if seen.contains name then .error .mismatch
        else do
          let (record, rest) ← readField codec room field record (← readColon rest)
          readMembers schema room fuel false (record, name :: seen) rest

/-- A record from an object. -/
def readObject (schema : Schema ρ) (room : Nat) : Read ρ := fun text => do
  let ((record, seen), rest) ←
    readMembers codec schema room (text.length + 1) true (schema.blank, []) text
  let missing := schema.fields.any fun (field, presence) =>
    presence == .required && !seen.contains field.key
  if missing then .error .mismatch else .ok (record, rest)

/-- The end of an array of which every element has been read. -/
def readArrayEnd (text : List Char) : Except Fault (List Char) :=
  match skipBlank text with
  | [] => .error .unfinished
  | c :: rest => if c = ']' then .ok rest else .error .malformed

/-- A record from the elements of an array, one for each field. -/
def readPositions (room : Nat) :
    List (Field ρ × Presence) → Bool → ρ → List Char → Except Fault (ρ × List Char)
  | [], _, record, text => do .ok (record, ← readArrayEnd text)
  | (field, presence) :: fields, first, record, text => do
    match ← nextElement first text with
    | (true, rest) =>
      let (record, rest) ← readField codec room field record rest
      readPositions room fields false record rest
    | (false, rest) =>
      if ((field, presence) :: fields).all (·.2 == .optional) then .ok (record, rest)
      else .error .mismatch

/-- The codec of a record. -/
def Codec.record (schema : Schema ρ) : Codec ρ where
  write record :=
    .object (schema.fields.map fun (field, _) =>
      (field.key, (codec field.kind).write (field.get record)))
  read room text :=
    match skipBlank text with
    | '[' :: rest =>
      enter room fun room => readPositions codec room schema.fields true schema.blank rest
    | '\x7b' :: rest => enter room fun room => readObject codec schema room rest
    | other => mismatchAt other

end Record

/-- A record of which every field may be missing. -/
def Schema.open {ρ : Type} (blank : ρ) (fields : List (Field ρ)) : Schema ρ :=
  ⟨blank, fields.map (·, .optional)⟩

/-! ### The records of this library -/

def overrideSchema : Schema Override :=
  ⟨⟨"", .bool false⟩, Override.fields.map (·, .required)⟩

/-- In an array an item's data must be present. -/
def itemSchema : Schema OptionItem :=
  ⟨{}, OptionItem.fields.map fun field =>
    (field, if field.kind = .choice then .optionalInObjects else .optional)⟩

def optionSchema : Schema ModOption := .open {} ModOption.fields

def modInfoSchema : Schema ModInfo := .open {} ModInfo.fields

def levelSchema : Schema Level := .open {} Level.fields

/-- Values that hold no records. -/
def Codec.leaf : (kind : Kind) → Codec kind.Value
  | .text => text
  | .flag => flag
  | .number => number
  | .whole => whole
  | .scalar => scalar
  | .choice => choice
  | .limit => limit
  | .texts => list text
  | .numbers => list number
  | .overrides => ⟨fun _ => .null, fun _ => mismatchAt⟩
  | .items => ⟨fun _ => .null, fun _ => mismatchAt⟩
  | .options => ⟨fun _ => .null, fun _ => mismatchAt⟩

/-- Values that hold records of leaves. -/
def Codec.inner : (kind : Kind) → Codec kind.Value
  | .overrides => list (record leaf overrideSchema)
  | .items => list (record leaf itemSchema)
  | kind => leaf kind

/-- All values. -/
def Codec.ofKind : (kind : Kind) → Codec kind.Value
  | .options => list (record inner optionSchema)
  | kind => inner kind

/-- A record whose fields are of any kind. -/
def Codec.ofSchema {ρ : Type} (schema : Schema ρ) : Codec ρ :=
  record ofKind schema

namespace Codec

/-- A word for each of a few values: a string, or an object whose only member has the word as its
name and nothing as its value. -/
def word {α : Type} (values : List α) (name : α → String) : Codec α where
  write a := .string (name a)
  read room text :=
    let find (s : String) : Except Fault α :=
      match values.find? (name · == s) with
      | some a => .ok a
      | none => .error .mismatch
    match skipBlank text with
    | [] => .error .unfinished
    | '"' :: rest => do
      let (s, rest) ← readString rest
      .ok (← find s, rest)
    | '\x7b' :: rest =>
      enter room fun _ => do
        let (s, rest) ← readText rest
        let a ← find s
        let rest ← match skipBlank (← readColon rest) with
          | 'n' :: rest => readWord ['u', 'l', 'l'] rest
          | other => mismatchAt other
        match skipBlank rest with
        | [] => .error .unfinished
        | c :: rest => if c = '\x7d' then .ok (a, rest) else .error .malformed
    | _ => .error .malformed

/-- Reads a text that holds one value and nothing after it. -/
def parse {α : Type} (codec : Codec α) (text : String) : Except Fault α :=
  match codec.read maxDepth text.toList with
  | .error fault => .error fault
  | .ok (a, rest) => if (skipBlank rest).isEmpty then .ok a else .error .malformed

end Codec

end LuaConfig.Json
