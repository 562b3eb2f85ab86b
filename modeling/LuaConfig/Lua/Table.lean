/-
Tables.

A table keeps the values of the positions `1 … n` in an array and all other entries in the order in
which their keys came.  An entry that is set to nil keeps its place, so that a walk over the table
can go on from it.  The walk goes through the positions first, and then through the entries in an
order that is up to the interpreter.
-/
import LuaConfig.Lua.Value
import Std.Data.TreeMap.Basic

namespace LuaConfig.Lua

/-- In what order a walk goes through entries: of `size` of them, `place` says which one comes at a
rank, and `rank` when one comes. -/
structure Walk where
  place : (size rank : Nat) → Nat
  rank : (size place : Nat) → Nat
  place_lt {size r : Nat} (h : r < size) : place size r < size
  rank_lt {size p : Nat} (h : p < size) : rank size p < size
  rank_place {size r : Nat} (h : r < size) : rank size (place size r) = r
  place_rank {size p : Nat} (h : p < size) : place size (rank size p) = p

/-- The walk in the order in which keys came. -/
def Walk.straight : Walk where
  place _ r := r
  rank _ p := p
  place_lt h := h
  rank_lt h := h
  rank_place _ := rfl
  place_rank _ := rfl

/-- A table.  `places` says where the entry of a key stands among `entries`. -/
structure Table where
  positions : Array Value := #[]
  places : Std.TreeMap Value Nat Value.order := ∅
  entries : Array (Value × Value) := #[]
  metatable : Option Nat := none
  walk : Walk := .straight

namespace Table

instance : Inhabited Table := ⟨{}⟩

/-- The index into `positions` of an integer key, if it has one. -/
def positionOf? (t : Table) (n : Int64) : Option Nat :=
  let i := n.toInt
  if 0 < i ∧ i ≤ t.positions.size then some (i - 1).toNat else none

/-- The value of a key that does not stand in `positions`. -/
def getEntry (t : Table) (key : Value) : Value :=
  match t.places[key]? with
  | some place => match t.entries[place]? with
    | some (_, v) => v
    | none => .nil
  | none => .nil

/-- The value of a key. -/
def get (t : Table) (key : Value) : Value :=
  match key with
  | .int n =>
    match t.positionOf? n with
    | some i => t.positions.getD i .nil
    | none => t.getEntry key
  | .float _ =>
    match key.toKey with
    | .int n =>
      match t.positionOf? n with
      | some i => t.positions.getD i .nil
      | none => t.getEntry (.int n)
    | key => t.getEntry key
  | key => t.getEntry key

/-- The value of a string key. -/
def field (t : Table) (name : String) : Value :=
  t.getEntry (.ofString name)

/-- Sets the value of a key that does not stand in `positions`. -/
def setEntry (t : Table) (key value : Value) : Table :=
  match t.places[key]? with
  | some place => { t with entries := t.entries.setIfInBounds place (key, value) }
  | none =>
    if value = .nil then t
    else
      { t with
        places := t.places.insert key t.entries.size
        entries := t.entries.push (key, value) }

/-- Moves entries that have come to follow the positions behind them, `fuel` at most. -/
def gather : (fuel : Nat) → Table → Table
  | 0, t => t
  | fuel + 1, t =>
    let key := Value.int (Int64.ofInt (t.positions.size + 1))
    match t.getEntry key with
    | .nil => t
    | value =>
      let t := t.setEntry key .nil
      gather fuel { t with positions := t.positions.push value }

/-- Puts a value behind the last position. -/
def push (t : Table) (value : Value) : Table :=
  let t := { t with positions := t.positions.push value }
  if t.entries.isEmpty then t else gather t.entries.size t

/-- Sets the value of an integer key. -/
def setInt (t : Table) (n : Int64) (value : Value) : Table :=
  match t.positionOf? n with
  | some i => { t with positions := t.positions.setIfInBounds i value }
  | none =>
    if n.toInt = t.positions.size + 1 ∧ value ≠ .nil then t.push value
    else t.setEntry (.int n) value

/-- Sets the value of a key.  The key is neither nil nor the double that is no number. -/
def set (t : Table) (key value : Value) : Table :=
  match key with
  | .int n => t.setInt n value
  | .float _ =>
    match key.toKey with
    | .int n => t.setInt n value
    | key => t.setEntry key value
  | key => t.setEntry key value

/-- Sets the value of a string key. -/
def setField (t : Table) (name : String) (value : Value) : Table :=
  t.setEntry (.ofString name) value

/-- Sets the values of the positions from 1 on; those that are there already are replaced. -/
def setPositions (t : Table) (values : List Value) : Table :=
  if t.positions.isEmpty ∧ t.entries.isEmpty then { t with positions := values.toArray }
  else
    (values.foldl (fun (t, i) v =>
      let t :=
        if i < t.positions.size then { t with positions := t.positions.setIfInBounds i v }
        else t.push v
      (t, i + 1)) (t, 0)).1

/-! ### Length -/

/-- A border between `low` and `high`, where `high` is absent and `low` is zero or present. -/
def search (present : Nat → Bool) : (fuel low high : Nat) → Nat
  | 0, low, _ => low
  | fuel + 1, low, high =>
    if high ≤ low + 1 then low
    else
      let middle := (low + high) / 2
      if present middle then search present fuel middle high else search present fuel low middle

/-- The length: a position that is present, or zero, and after which none comes. -/
def length (t : Table) : Nat :=
  let present (n : Nat) : Bool := t.positions.getD (n - 1) .nil ≠ .nil
  let size := t.positions.size
  if size = 0 then 0
  else if present size then size
  else if present (size - 1) ∧ 1 < size then size - 1
  else search present 64 0 size

/-! ### Walks -/

/-- The entry that comes at a rank. -/
def entryAt? (t : Table) (rank : Nat) : Option (Value × Value) :=
  if rank < t.entries.size then t.entries[t.walk.place t.entries.size rank]? else none

/-- The first present entry from rank `i` on, `fuel` ranks being looked at. -/
def entryFrom? (t : Table) : (fuel i : Nat) → Option (Value × Value)
  | 0, _ => none
  | fuel + 1, i =>
    match t.entryAt? i with
    | none => none
    | some (key, value) =>
      if value = .nil then entryFrom? t fuel (i + 1) else some (key, value)

/-- The first present position from index `i` on, or else the first present entry. -/
def positionFrom? (t : Table) : (fuel i : Nat) → Option (Value × Value)
  | 0, _ => t.entryFrom? t.entries.size 0
  | fuel + 1, i =>
    match t.positions[i]? with
    | none => t.entryFrom? t.entries.size 0
    | some value =>
      if value = .nil then positionFrom? t fuel (i + 1)
      else some (.int (Int64.ofInt (i + 1)), value)

/-- The pair that follows a key on a walk, nil being followed by the first one; nothing if the key
is not in the table. -/
def next? (t : Table) (key : Value) : Option (Option (Value × Value)) :=
  match key.toKey with
  | .nil => some (t.positionFrom? t.positions.size 0)
  | key =>
    let position := match key with
      | .int n => t.positionOf? n
      | _ => none
    match position with
    | some i => some (t.positionFrom? (t.positions.size - i) (i + 1))
    | none =>
      match t.places[key]? with
      | some place =>
        let rank := t.walk.rank t.entries.size place
        some (t.entryFrom? (t.entries.size - rank) (rank + 1))
      | none => none

/-- The entries in the order of a walk. -/
def walked (t : Table) : List (Value × Value) :=
  (List.range t.entries.size).filterMap t.entryAt?

/-- All pairs in the order of a walk. -/
def pairs (t : Table) : List (Value × Value) :=
  let positions := t.positions.toList.zipIdx.map fun (v, i) =>
    (Value.int (Int64.ofInt (i + 1)), v)
  (positions ++ t.walked).filter fun (_, v) => v ≠ .nil

/-- Has the table no value? -/
def isEmpty (t : Table) : Bool :=
  (t.positionFrom? t.positions.size 0).isNone

end Table

end LuaConfig.Lua
