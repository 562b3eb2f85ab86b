/-
What a running script works on.

Tables, functions and captured variables live in arrays that only grow, and are referred to by
their places.  Beside them the store counts instructions and the octets that have been allocated;
the counts are read by the machine alone.

Some things are up to the interpreter, and may differ from run to run: in what order walks go
through the entries of tables, where random numbers begin, what addresses there are, and whether
the collector comes to work once a script has ended (`Choices`).  While a script runs nothing is
collected: no finalizer is called then, and what is referred to by weak tables alone stays.  Which
tables wait for their finalizers is kept (`Collector`), so that they can be called afterwards.
-/
import LuaConfig.Lua.Code.Basic
import LuaConfig.Lua.Random
import LuaConfig.Lua.Table

namespace LuaConfig.Lua

/-- A walk over the matches of a pattern: where the next one is looked for, and where the last one
ended. -/
structure MatchWalk where
  subject : Octets
  pattern : Octets
  position : Nat
  lastEnd : Option Nat

/-- A function that has been made by a script. -/
inductive Closure where
  | script (code : Function) (upvalues : Array Nat)
  | matches (walk : MatchWalk)

/-- A local variable: its value, or the cell that holds it once it has been captured. -/
inductive Slot where
  | direct (v : Value)
  | cell (ref : Nat)

instance : Inhabited Slot := ⟨.direct .nil⟩

/-- What does not change while a function is active. -/
structure Activation where
  chunk : String
  upvalues : Array Nat
  varargs : List Value

/-- What is up to the interpreter. -/
structure Choices where
  /-- The walk over the entries of the table that is made as the `n`-th one. -/
  walk : (n : Nat) → Walk := fun _ => .straight
  /-- Where random numbers begin. -/
  seed : UInt64 × UInt64 := (1, 0)
  /-- The address of the `n`-th object; tables and functions are counted in turn. -/
  address : (n : Nat) → Nat := fun n => 32 * n
  /-- Does the collector come to work before it is read what a script has left? -/
  collects : Bool := false

/-- What the collector has been told, and what it has to do. -/
structure Collector where
  running : Bool := true
  /-- How much had been allocated when it was last told to go on at once. -/
  restarted : Option Nat := none
  /-- The tables that are finalized when they can no longer be reached, newest first. -/
  marked : List Nat := []
  /-- Is a finalizer at work? -/
  finalizing : Bool := false
  pause : Nat := 200
  stepFactor : Nat := 100
  generational : Bool := false

structure Store where
  tables : Array Table
  functions : Array Closure
  cells : Array Value
  /-- The codes that strings stand for. -/
  dumps : Array Function
  /-- The local variables of the active function. -/
  slots : Array Slot
  globals : Nat
  /-- The table whose fields say how strings behave. -/
  stringMetatable : Nat
  spent : Nat
  allocated : Nat
  /-- The lines that have been printed, newest first. -/
  prints : List String
  random : Random
  choices : Choices
  collector : Collector

namespace Store

/-! ### Counts -/

/-- Counts `n` instructions. -/
def charge (σ : Store) (n : Nat) : Store := { σ with spent := σ.spent + n }

/-- Counts `n` octets. -/
def allocate (σ : Store) (n : Nat) : Store := { σ with allocated := σ.allocated + n }

/-- The octets of an empty table. -/
def tableSize : Nat := 56

/-- The octets of a value in an array. -/
def valueSize : Nat := 16

/-- The octets of an entry. -/
def entrySize : Nat := 40

/-- The octets of a string beside its own. -/
def stringSize : Nat := 24

/-- The octets of a function or a captured variable. -/
def closureSize : Nat := 40

/-! ### Variables -/

def slot (σ : Store) (i : Nat) : Value :=
  match σ.slots[i]? with
  | some (.direct v) => v
  | some (.cell ref) => σ.cells.getD ref .nil
  | none => .nil

/-- A new variable in a slot. -/
def freshSlot (σ : Store) (i : Nat) (v : Value) : Store :=
  { σ with slots := σ.slots.setIfInBounds i (.direct v) }

/-- New variables in the slots from `i` on. -/
def freshSlots (σ : Store) (i : Nat) : (count : Nat) → List Value → Store
  | 0, _ => σ
  | n + 1, vs => freshSlots (σ.freshSlot i (vs.headD .nil)) (i + 1) n vs.tail

def setCell (σ : Store) (ref : Nat) (v : Value) : Store :=
  { σ with cells := σ.cells.setIfInBounds ref v }

def setSlot (σ : Store) (i : Nat) (v : Value) : Store :=
  match σ.slots[i]? with
  | some (.cell ref) => σ.setCell ref v
  | _ => σ.freshSlot i v

def newCell (σ : Store) (v : Value) : Nat × Store :=
  (σ.cells.size, { σ with cells := σ.cells.push v, allocated := σ.allocated + closureSize })

/-- The cell of a local variable, which is captured if it has not been yet. -/
def captureSlot (σ : Store) (i : Nat) : Nat × Store :=
  match σ.slots[i]? with
  | some (.cell ref) => (ref, σ)
  | _ =>
    let (ref, σ) := σ.newCell (σ.slot i)
    (ref, { σ with slots := σ.slots.setIfInBounds i (.cell ref) })

def upvalue (σ : Store) (act : Activation) (i : Nat) : Value :=
  match act.upvalues[i]? with
  | some ref => σ.cells.getD ref .nil
  | none => .nil

def setUpvalue (σ : Store) (act : Activation) (i : Nat) (v : Value) : Store :=
  match act.upvalues[i]? with
  | some ref => σ.setCell ref v
  | none => σ

/-- The cells of captured variables. -/
def capture (act : Activation) : List Capture → Array Nat → Store → Array Nat × Store
  | [], done, σ => (done, σ)
  | .slot i :: rest, done, σ =>
    let (ref, σ) := σ.captureSlot i
    capture act rest (done.push ref) σ
  | .upvalue i :: rest, done, σ => capture act rest (done.push (act.upvalues.getD i 0)) σ

/-! ### Functions and tables -/

def newFunction (σ : Store) (f : Closure) : Value × Store :=
  (.func σ.functions.size,
    { σ with functions := σ.functions.push f, allocated := σ.allocated + closureSize })

/-- A function whose captures are taken from the active one. -/
def newClosure (σ : Store) (act : Activation) (code : Function) : Value × Store :=
  match code with
  | .mk _ _ _ _ captures _ =>
    let (refs, σ) := capture act captures #[] σ
    σ.newFunction (.script code refs)

/-- The walk over the entries of the table that is made next. -/
def nextWalk (σ : Store) : Walk := σ.choices.walk σ.tables.size

def newTable (σ : Store) (t : Table) : Value × Store :=
  let size := tableSize + valueSize * t.positions.size + entrySize * t.entries.size
  (.table σ.tables.size,
    { σ with
      tables := σ.tables.push { t with walk := σ.nextWalk }
      allocated := σ.allocated + size })

def table (σ : Store) (ref : Nat) : Table := σ.tables.getD ref {}

def tableAddress (σ : Store) (ref : Nat) : Nat := σ.choices.address (2 * ref + 1)

def functionAddress (σ : Store) (ref : Nat) : Nat := σ.choices.address (2 * ref)

/-- The value of a key, metatables being left aside. -/
def rawGet (σ : Store) (ref : Nat) (key : Value) : Value :=
  match σ.tables[ref]? with
  | some t => t.get key
  | none => .nil

/-- Replaces a table by what a function makes of it. -/
def modifyTable (σ : Store) (ref : Nat) (f : Table → Table) : Store :=
  { σ with tables := σ.tables.modify ref f }

/-- The octets by which an array grows when it takes one more value than `n`: it doubles. -/
def growth (size n : Nat) : Nat :=
  if n &&& (n - 1) = 0 then size * max 1 n else 0

/-- Sets the value of a key, metatables being left aside. -/
def rawSet (σ : Store) (ref : Nat) (key value : Value) : Store :=
  let t := σ.table ref
  let positions := t.positions.size
  let entries := t.entries.size
  let σ := σ.modifyTable ref (·.set key value)
  let t := σ.table ref
  let grown :=
    (if positions < t.positions.size then growth valueSize positions else 0) +
    (if entries < t.entries.size then growth entrySize entries else 0)
  σ.allocate grown

/-- The table that says how a value behaves, if there is one. -/
def metatable? (σ : Store) : Value → Option Nat
  | .table ref => (σ.table ref).metatable
  | .str _ => some σ.stringMetatable
  | _ => none

/-- What a value's metatable holds for an event. -/
def metamethod (σ : Store) (v : Value) (event : Value) : Value :=
  match σ.metatable? v with
  | some ref => (σ.table ref).getEntry event
  | none => .nil

/-- The key under which a metatable says how its table is finalized. -/
def finalizerKey : Value := .ofString "__gc"

/-- Gives a table a metatable, or takes it away.  A table whose metatable has a finalizer is marked,
unless it is already. -/
def setMetatable (σ : Store) (ref : Nat) (metatable : Option Nat) : Store :=
  let σ := σ.modifyTable ref ({ · with metatable := metatable })
  if σ.metamethod (.table ref) finalizerKey = .nil ∨ ref ∈ σ.collector.marked then σ
  else { σ with collector := { σ.collector with marked := ref :: σ.collector.marked } }

/-- The string of the given octets, counted. -/
def newString (σ : Store) (s : Octets) : Value × Store :=
  (.str s, σ.allocate (s.size + stringSize))

end Store

end LuaConfig.Lua
