/-
The scopes of a script that is being read.

A function's scope lists its variables, newest first, and the blocks that are open.  A jump waits
in its block until its label is found; when the block is left it goes on waiting in the block
around it.
-/
import LuaConfig.Lua.Code.Basic

namespace LuaConfig.Lua

/-- What may be done with a variable. -/
inductive VariableKind where
  | plain
  /-- It is never assigned to. -/
  | fixed
  /-- It stands for a value that is known. -/
  | known (v : Value)
  deriving DecidableEq

structure Variable where
  name : Octets
  slot : Nat
  kind : VariableKind

/-- A label, and how many variables are in scope there. -/
structure VisibleLabel where
  name : Octets
  locals : Nat

/-- A jump whose label has not been found yet. -/
structure Jump where
  name : Octets
  locals : Nat

/-- An open block: how many variables were in scope and which slot was free when it was opened, and
whether something may have to be closed when it is left. -/
structure BlockScope where
  isLoop : Bool
  locals : Nat
  slot : Nat
  closes : Bool
  labels : List VisibleLabel := []
  jumps : List Jump := []

/-- An open function. -/
structure FunctionScope where
  vararg : Bool
  locals : List Variable := []
  slot : Nat := 0
  slots : Nat := 0
  captures : List (Octets × VariableKind × Capture) := []
  blocks : List BlockScope := []

/-- The name under which a `break` waits for the end of its loop; no label can have it. -/
def breakName : Octets := Octets.ofString "break"

/-- What a name stands for. -/
inductive Binding where
  | variable (v : Variable)
  | capture (i : Nat) (kind : VariableKind)

namespace FunctionScope

/-- The position of a captured variable. -/
def capture? (scope : FunctionScope) (name : Octets) : Option (Nat × VariableKind) :=
  (scope.captures.zipIdx.find? fun (c, _) => c.1 == name).map fun (c, i) => (i, c.2.1)

/-- Adds a capture. -/
def withCapture (scope : FunctionScope) (name : Octets) (kind : VariableKind) (from_ : Capture) :
    Nat × FunctionScope :=
  (scope.captures.length, { scope with captures := scope.captures ++ [(name, kind, from_)] })

/-- Adds a variable in the next slot. -/
def withVariable (scope : FunctionScope) (name : Octets) (kind : VariableKind) : FunctionScope :=
  { scope with
    locals := ⟨name, scope.slot, kind⟩ :: scope.locals
    slot := scope.slot + 1
    slots := max scope.slots (scope.slot + 1) }

/-- Adds a name for a value that is known. -/
def withKnown (scope : FunctionScope) (name : Octets) (v : Value) : FunctionScope :=
  { scope with locals := ⟨name, scope.slot, .known v⟩ :: scope.locals }

/-- Adds `n` slots without names. -/
def withSlots (scope : FunctionScope) (n : Nat) : FunctionScope :=
  { scope with slot := scope.slot + n, slots := max scope.slots (scope.slot + n) }

/-- May something have to be closed when the function is left? -/
def closes (scope : FunctionScope) : Bool :=
  match scope.blocks with
  | [] => false
  | block :: _ => block.closes

/-- Notes that something may have to be closed when the innermost block is left. -/
def withClosing (scope : FunctionScope) : FunctionScope :=
  match scope.blocks with
  | [] => scope
  | block :: outer => { scope with blocks := { block with closes := true } :: outer }

/-- Opens a block. -/
def opened (scope : FunctionScope) (isLoop : Bool) : FunctionScope :=
  { scope with
    blocks := ⟨isLoop, scope.locals.length, scope.slot, scope.closes, [], []⟩ :: scope.blocks }

/-- Closes the innermost block; its jumps that still wait do so in the block around it.  Returns
also the jumps that wait for nothing more. -/
def closed (scope : FunctionScope) : FunctionScope × List Jump :=
  match scope.blocks with
  | [] => (scope, [])
  | block :: outer =>
    let waiting :=
      if block.isLoop then block.jumps.filter fun j => !(j.name == breakName) else block.jumps
    let waiting := waiting.map fun j => { j with locals := min j.locals block.locals }
    let scope :=
      { scope with
        locals := scope.locals.drop (scope.locals.length - block.locals)
        slot := block.slot }
    match outer with
    | [] => ({ scope with blocks := [] }, waiting)
    | next :: rest =>
      ({ scope with blocks := { next with jumps := next.jumps ++ waiting } :: rest }, [])

/-- Is there a label of this name in an open block? -/
def hasLabel (scope : FunctionScope) (name : Octets) : Bool :=
  scope.blocks.any fun block => block.labels.any (·.name == name)

/-- Adds a jump to the innermost block, unless its label stands before it. -/
def withJump (scope : FunctionScope) (name : Octets) : FunctionScope :=
  if scope.hasLabel name then scope
  else
    match scope.blocks with
    | [] => scope
    | block :: outer =>
      let jump : Jump := ⟨name, scope.locals.length⟩
      { scope with blocks := { block with jumps := block.jumps ++ [jump] } :: outer }

/-- Adds a label to the innermost block; where nothing follows it there the block's variables are
out of scope.  There is no such scope if a jump that waits for it would enter the scope of a
variable. -/
def withLabel? (scope : FunctionScope) (name : Octets) (isLast : Bool) : Option FunctionScope :=
  match scope.blocks with
  | [] => some scope
  | block :: outer =>
    let label : VisibleLabel := ⟨name, if isLast then block.locals else scope.locals.length⟩
    let (arriving, waiting) := block.jumps.partition (·.name == name)
    if arriving.any fun j => j.locals < label.locals then none
    else
      some { scope with
        blocks := { block with labels := label :: block.labels, jumps := waiting } :: outer }

/-- Finds what a name stands for, adding captures to the functions between. -/
def resolve (name : Octets) : List FunctionScope → Option Binding × List FunctionScope
  | [] => (none, [])
  | scope :: outer =>
    match scope.locals.find? (·.name == name) with
    | some v => (some (.variable v), scope :: outer)
    | none =>
      match scope.capture? name with
      | some (i, kind) => (some (.capture i kind), scope :: outer)
      | none =>
        match resolve name outer with
        | (none, outer) => (none, scope :: outer)
        | (some (.variable v), outer) =>
          match v.kind with
          | .known _ => (some (.variable v), scope :: outer)
          | kind =>
            let (i, scope) := scope.withCapture name kind (.slot v.slot)
            (some (.capture i kind), scope :: outer)
        | (some (.capture i kind), outer) =>
          let (j, scope) := scope.withCapture name kind (.upvalue i)
          (some (.capture j kind), scope :: outer)

end FunctionScope

end LuaConfig.Lua
