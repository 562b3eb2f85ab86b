/-
Runs of scripts.

A script is run once, on a store of its own, and within the limits of its options.  What is looked
at afterwards is its root: the value it returned, or its globals.  A run need not end: it has an
outcome in so many steps, or none yet (`runFor`).

Before the root is read the collector may come to work.  The tables that it finds out of reach are
finalized then; their finalizers can still change what is read (`Outcome.settle`).
-/
import LuaConfig.Lua.Machine
import LuaConfig.Sandbox.Failure
import LuaConfig.Sandbox.Globals

namespace LuaConfig

-- powers are the built-in ones
attribute [local instance (2000)] instPowNat

open Lua

namespace Sandbox

/-- Which value of a script is looked at when it has run. -/
inductive Root where
  | returned
  | globals
  deriving DecidableEq, Repr

/-- What a run has come to: its root, if it has one, and the store it has left. -/
structure Outcome where
  root : Except Failure Value
  store : Store

/-- The lines that have been printed, in their order. -/
def Outcome.prints (o : Outcome) : List String := o.store.prints.reverse

/-- How far the machine may go. -/
def limits (options : SandboxOptions) : Limits where
  instructions := options.instructionLimit
  memory := options.memoryLimit.filter (· ≠ 0)
  guarded := options.instructionLimit.isSome

/-- The function of a source.  The source of a returned value may be an expression. -/
def function (root : Root) (shown : String) (source : Octets) : Except SyntaxFault Function :=
  match root with
  | .globals => Function.ofText shown source
  | .returned =>
    match Function.ofText shown (Octets.ofString "return " ++ source) with
    | .ok code => .ok code
    | .error _ => Function.ofText shown source

/-- What a fault in the text of a chunk is reported as. -/
def syntaxCause (shown : String) : SyntaxFault → Cause
  | .unexpected line => .malformed shown line
  | .tooDeep => .raised "C stack overflow"

/-- Why a chunk cannot have the given name: names end at the first octet that is zero. -/
def refuseName? (name : Octets) : Option Cause :=
  (name.toList.findIdx? (· = 0)).map fun i =>
    .raised ("invalid name: nul byte found in provided data at position: " ++ Nat.repr i)

/-- Reads a script that is to be run under the given name. -/
def read (root : Root) (chunk source : String) : Except Cause Function :=
  let name := Octets.ofString ("=" ++ chunk)
  let shown := ChunkName.shown name
  match refuseName? name, function root shown (Octets.ofString source) with
  | some cause, _ => .error cause
  | none, .error fault => .error (syntaxCause shown fault)
  | none, .ok code => .ok code

/-- What a fault is reported as. -/
def faultCause (σ : Store) : Fault → Cause
  | .outOfMemory => .outOfMemory
  | .raised (.failure text) => .raised text
  | .raised v => .raised (Library.plainText σ v).text

/-- The root of a run that has ended.  A run whose instructions have been spent on the way has
none. -/
def finish (limits : Limits) (chunk : String) (root : Root) (final : Final) : Outcome :=
  match limits.instructions, final.exhausted, final.outcome with
  | some limit, true, _ => ⟨.error (.outOfInstructions chunk limit), final.store⟩
  | _, _, .error fault => ⟨.error (.execution chunk (faultCause final.store fault)), final.store⟩
  | _, _, .ok values =>
    let value := match root with
      | .returned => values.headD .nil
      | .globals => .table final.store.globals
    ⟨.ok value, final.store⟩

/-- Runs a function that has been read from a script; it has no outcome if it does not end in
`fuel` steps. -/
def execute (limits : Limits) (fuel : Nat) (chunk : String) (root : Root) (code : Function)
    (σ : Store) : Option Outcome :=
  let (f, σ) := σ.newChunk code (.table σ.globals)
  (Machine.call limits fuel f [] σ).map (finish limits chunk root)

/-- Is there too little memory to prepare a run? -/
def isCramped (options : SandboxOptions) : Bool := (limits options).memory.any (· < preparedSize)

/-- Reads and runs a script; it has no outcome if it does not end in `fuel` steps. -/
def runFor (fuel : Nat) (options : SandboxOptions) (root : Root) (chunk source : String)
    (choices : Choices) : Option Outcome :=
  let limits := limits options
  let σ := prepare options choices
  if isCramped options then
    if limits.instructions.isSome then some ⟨.error (.preparation .outOfMemory), σ⟩
    else some ⟨.error (.execution chunk .outOfMemory), σ⟩
  else
    match read root chunk source with
    | .error cause => some ⟨.error (.execution chunk cause), σ⟩
    | .ok code => execute limits fuel chunk root code σ

/-- For how many steps a script is run that is not known to end. -/
def patience : Nat := 2 ^ (60 : Nat)

/-- What is said of a run that does not end. -/
def unended (options : SandboxOptions) (chunk : String) (choices : Choices) : Outcome :=
  ⟨.error (.execution chunk .endless), prepare options choices⟩

/-- Reads and runs a script. -/
def run (options : SandboxOptions) (root : Root) (chunk source : String)
    (choices : Choices := {}) : Outcome :=
  (runFor patience options root chunk source choices).getD (unended options chunk choices)

/-! ### The collector -/

/-- Does the collector come to work before the root is read?  It does so if it likes, or if it has
been told to go on and nothing has been allocated since. -/
def isDue (σ : Store) : Bool :=
  σ.choices.collects ||
    (σ.collector.running && !σ.collector.generational &&
      σ.collector.restarted = some σ.allocated)

/-- The tables that wait for their finalizers and are out of reach. -/
def condemned (σ : Store) (root : Value) : List Nat :=
  σ.collector.marked.filter fun ref => !σ.isLive root ref

/-- Calls the finalizer of a table.  Nobody looks at its instructions, and its errors are passed
over. -/
def finalize (limits : Limits) (fuel : Nat) (ref : Nat) (σ : Store) : Option Store :=
  match σ.metamethod (.table ref) Store.finalizerKey with
  | .nil => some σ
  | f =>
    let call : Step := .attempt none f [.table ref] (fun _ σ => .done [] σ) σ
    (Machine.run { limits with instructions := none } fuel .initial call).map (·.store)

/-- Calls the finalizers of tables, one after the other. -/
def finalizeAll (limits : Limits) (fuel : Nat) : List Nat → Store → Option Store
  | [], σ => some σ
  | ref :: refs, σ => (finalize limits fuel ref σ).bind (finalizeAll limits fuel refs)

/-- The store in which the finalizers of tables are called. -/
def beginFinalizing (refs : List Nat) (σ : Store) : Store :=
  { σ with
    slots := #[]
    collector := { σ.collector with
      restarted := none
      marked := σ.collector.marked.filter (· ∉ refs)
      finalizing := true } }

/-- The store when they have been called. -/
def endFinalizing (σ : Store) : Store :=
  { σ with collector := { σ.collector with finalizing := false } }

/-- An outcome once the collector has come to work, if it does; there is none if a finalizer does not
end in `fuel` steps. -/
def Outcome.settle (limits : Limits) (fuel : Nat) (o : Outcome) : Option Outcome :=
  match o.root with
  | .error _ => some o
  | .ok root =>
    match if isDue o.store then condemned o.store root else [] with
    | [] => some o
    | refs =>
      (finalizeAll limits fuel refs (beginFinalizing refs o.store)).map fun σ =>
        { o with store := endFinalizing σ }

/-- Reads and runs a script up to where its root is read, in `fuel` steps at most for the script and
for each finalizer. -/
def readyFor (fuel : Nat) (options : SandboxOptions) (root : Root) (chunk source : String)
    (choices : Choices) : Option Outcome :=
  (runFor fuel options root chunk source choices).bind (Outcome.settle (limits options) fuel)

/-- Reads and runs a script up to where its root is read. -/
def ready (options : SandboxOptions) (root : Root) (chunk source : String)
    (choices : Choices := {}) : Outcome :=
  (readyFor patience options root chunk source choices).getD (unended options chunk choices)

end Sandbox

end LuaConfig
