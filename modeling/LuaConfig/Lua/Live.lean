/-
What of a store can still be reached.

Octets are counted from the values that are at hand, and what has been counted is kept.  A table
counts once, however often it is referred to, and so does a string that looks the same as another
one.
-/
import LuaConfig.Lua.Store

namespace LuaConfig.Lua

-- powers are the built-in ones
attribute [local instance (2000)] instPowNat

namespace Live

/-- What a string looks like: its length and the octets at its ends. -/
def outline (s : Octets) : Octets :=
  if s.size ≤ 64 then s
  else s.extract 0 24 ++ s.extract (s.size - 24) s.size ++ Octets.ofString (Nat.repr s.size)

/-- What has been counted so far. -/
structure Count where
  tables : Array Bool
  functions : Array Bool
  cells : Array Bool
  strings : Std.TreeMap Octets Unit Octets.order
  size : Nat

def Count.add (c : Count) (n : Nat) : Count := { c with size := c.size + n }

/-- The size of an array with room for `n` values. -/
def roomFor (n : Nat) : Nat :=
  if n = 0 then 0 else 2 ^ (Nat.log2 (n - 1) + if n = 1 then 0 else 1)

/-- The octets of a table. -/
def tableSize (t : Table) : Nat :=
  let present := t.entries.foldl (fun n e => if e.2 = .nil then n else n + 1) 0
  Store.tableSize + Store.valueSize * roomFor t.positions.size + Store.entrySize * roomFor present

/-- What a value refers to, put in front of what still has to be counted. -/
def expand (σ : Store) (v : Value) (rest : List Value) (c : Count) : List Value × Count :=
  match v with
  | .str s =>
    let key := outline s
    if c.strings.contains key then (rest, c)
    else (rest, { c with strings := c.strings.insert key (), size := c.size + s.size + Store.stringSize })
  | .table ref =>
    if c.tables.getD ref true then (rest, c)
    else
      let t := σ.table ref
      let c := { c with tables := c.tables.setIfInBounds ref true, size := c.size + tableSize t }
      let rest := t.positions.foldl (fun rest v => v :: rest) rest
      let rest := t.entries.foldl (fun rest e => e.1 :: e.2 :: rest) rest
      (match t.metatable with
        | some ref => .table ref :: rest
        | none => rest, c)
  | .func ref =>
    if c.functions.getD ref true then (rest, c)
    else
      let c := { c with functions := c.functions.setIfInBounds ref true, size := c.size + Store.closureSize }
      match σ.functions[ref]? with
      | some (.script _ upvalues) =>
        upvalues.foldl (fun (rest, c) cell =>
          if c.cells.getD cell true then (rest, c)
          else
            (σ.cells.getD cell .nil :: rest,
              { c with cells := c.cells.setIfInBounds cell true, size := c.size + Store.closureSize }))
          (rest, c)
      | some (.matches walk) => (.str walk.subject :: rest, c)
      | none => (rest, c)
  | _ => (rest, c)

/-- Counts values and all that they refer to. -/
def count (σ : Store) : (fuel : Nat) → List Value → Count → Count
  | 0, _, c => c
  | _, [], c => c
  | fuel + 1, v :: rest, c =>
    let (rest, c) := expand σ v rest c
    count σ fuel rest c

/-- The values of slots. -/
def slotValues (σ : Store) (slots : Array Slot) (rest : List Value) : List Value :=
  slots.foldl (fun rest slot =>
    match slot with
    | .direct v => v :: rest
    | .cell ref => σ.cells.getD ref .nil :: rest) rest

end Live

/-- What can be reached from the globals, from slots and from values. -/
def Store.live (σ : Store) (slots : List (Array Slot)) (values : List Value) : Live.Count :=
  let roots := (σ.slots :: slots).foldl (fun rest s => Live.slotValues σ s rest)
    (.table σ.globals :: .table σ.stringMetatable :: values)
  Live.count σ (2 ^ (60 : Nat)) roots
    { tables := Array.replicate σ.tables.size false
      functions := Array.replicate σ.functions.size false
      cells := Array.replicate σ.cells.size false
      strings := ∅
      size := 0 }

/-- The octets that can be reached from the globals and from slots. -/
def Store.liveSize (σ : Store) (slots : List (Array Slot)) : Nat := (σ.live slots []).size

/-- Can a table be reached from the globals or from a value? -/
def Store.isLive (σ : Store) (root : Value) (ref : Nat) : Bool :=
  (σ.live [] [root]).tables.getD ref true

end LuaConfig.Lua
