/-
Suspended computations.

A computation goes on by itself until it needs what lies outside it: a function to be called, a
loop to begin again, an error to be caught.  There it stops, as a `Step` that says what it needs
and holds the rest of the computation as a function of the answer.  The machine gives the answers.
-/
import LuaConfig.Lua.Store

namespace LuaConfig.Lua

-- the comparison of octets is the built-in one
attribute [local instance (2000)] ByteArray.instDecidableEq

/-- Why a computation fails. -/
inductive Fault where
  /-- A value has been raised as an error. -/
  | raised (v : Value)
  | outOfMemory
  deriving DecidableEq

/-- Where a computation can be resumed inside a scope. -/
inductive Label where
  /-- The beginning of a loop's round. -/
  | again
  | named (name : Octets)
  deriving DecidableEq

inductive Step where
  /-- The function that is active returns. -/
  | done (results : List Value) (σ : Store)
  /-- Calls a function; the site is missing where no script makes the call. -/
  | call (site : Option Site) (f : Value) (args : List Value)
      (k : List Value → Store → Step) (σ : Store)
  /-- Calls a function in place of the active one. -/
  | tailCall (site : Site) (f : Value) (args : List Value) (σ : Store)
  | fail (fault : Fault) (σ : Store)
  /-- Opens a scope with its labels and runs what is inside. -/
  | enter (labels : List (Label × (Store → Step))) (inside : Store → Step) (σ : Store)
  /-- Opens a scope with a value that is closed when the scope is left; the site is that of the
  call by which it is closed. -/
  | enterClosing (site : Option Site) (v : Value) (inside : Store → Step) (σ : Store)
  /-- Closes the innermost scope. -/
  | leave (k : Store → Step) (σ : Store)
  /-- Goes on at a label of the nearest scope that has it. -/
  | jump (label : Label) (σ : Store)
  /-- Calls a function and catches its errors; a handler is handed them first. -/
  | attempt (handler : Option Value) (f : Value) (args : List Value)
      (k : Except Value (List Value) → Store → Step) (σ : Store)
  /-- Refuses a guarded call that lacks what it needs. -/
  | refuseAttempt (message : String) (σ : Store)
  /-- Calls a reader.  If it fails, the active function returns nil and the error. -/
  | read (reader : Value) (k : List Value → Store → Step) (σ : Store)
  /-- Asks for the site of the call at a level, the innermost being 1. -/
  | locate (level : Nat) (k : Option Site → Store → Step) (σ : Store)
  /-- Asks for memory before it is used. -/
  | reserve (size : Nat) (k : Store → Step) (σ : Store)
  /-- Asks how many octets are in use. -/
  | measure (k : Nat → Store → Step) (σ : Store)

/-- What is done with an answer. -/
abbrev Continuation (α : Type) : Type := α → Store → Step

/-- Where an operation is performed: on a line of a script, or inside a builtin. -/
inductive Place where
  | script (chunk : String) (line : Nat)
  | builtin

namespace Place

/-- What stands before a message from there. -/
def mark : Place → String
  | script chunk line => chunk ++ ":" ++ Nat.repr line ++ ": "
  | builtin => ""

/-- The site of a call of a metamethod. -/
def site (place : Place) (event : String) : Option Site :=
  match place with
  | script chunk line => some ⟨chunk, line, some ⟨.metamethod, event⟩⟩
  | builtin => none

end Place

/-- The place of a call. -/
def Site.place (site : Site) : Place := .script site.chunk site.line

/-- What stands before a message that is raised in the name of a call. -/
def Site.mark : Option Site → String
  | some site => site.place.mark
  | none => ""

namespace Step

/-- Raises a message as an error. -/
def raise (message : String) (σ : Store) : Step :=
  .fail (.raised (.ofString message)) σ

/-- Raises a message about an operation. -/
def raiseAt (place : Place) (message : String) (σ : Store) : Step :=
  .raise (place.mark ++ message) σ

/-- Raises a message in the name of the function that called the active builtin. -/
def raiseHere (message : String) (σ : Store) : Step :=
  .locate 1 (fun site σ => .raise (Site.mark site ++ message) σ) σ

/-- Calls a function for its first result. -/
def callOne (site : Option Site) (f : Value) (args : List Value) (k : Continuation Value)
    (σ : Store) : Step :=
  .call site f args (fun vs σ => k (vs.headD .nil) σ) σ

/-- The store that a computation has come to. -/
def store : Step → Store
  | done _ σ => σ
  | call _ _ _ _ σ => σ
  | tailCall _ _ _ σ => σ
  | fail _ σ => σ
  | enter _ _ σ => σ
  | enterClosing _ _ _ σ => σ
  | leave _ σ => σ
  | jump _ σ => σ
  | attempt _ _ _ _ σ => σ
  | refuseAttempt _ σ => σ
  | read _ _ σ => σ
  | locate _ _ σ => σ
  | reserve _ _ σ => σ
  | measure _ σ => σ

/-- The same step with another store. -/
def modifyStore (change : Store → Store) : Step → Step
  | done vs σ => done vs (change σ)
  | call site f args k σ => call site f args k (change σ)
  | tailCall site f args σ => tailCall site f args (change σ)
  | fail fault σ => fail fault (change σ)
  | enter labels inside σ => enter labels inside (change σ)
  | enterClosing site v inside σ => enterClosing site v inside (change σ)
  | leave k σ => leave k (change σ)
  | jump label σ => jump label (change σ)
  | attempt handler f args k σ => attempt handler f args k (change σ)
  | refuseAttempt message σ => refuseAttempt message (change σ)
  | read reader k σ => read reader k (change σ)
  | locate level k σ => locate level k (change σ)
  | reserve size k σ => reserve size k (change σ)
  | measure k σ => measure k (change σ)

end Step

end LuaConfig.Lua
