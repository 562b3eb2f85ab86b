/-
Records from scripts.

The description of a mod stands in the globals of its script; a level is what its script returns.
-/
import LuaConfig.Sandbox.Run
import LuaConfig.Script.Reading

namespace LuaConfig

open Lua

namespace RecordKind

/-- The name under which scripts of a kind are run. -/
def chunk : RecordKind → String
  | modInfo => "modinfo.lua"
  | level => "leveldataoverride.lua"

/-- Where scripts of a kind have their record. -/
def root : RecordKind → Sandbox.Root
  | modInfo => .globals
  | level => .returned

end RecordKind

/-- What has become of a script: its record, if it has one, the lines it printed, and the entries
that were passed over. -/
structure Parsed (α : Type) where
  result : Except Failure α
  prints : List String := []
  skipped : List Reading.Skipped := []

namespace Parsed

def map {α β : Type} (f : α → β) (p : Parsed α) : Parsed β :=
  { p with result := p.result.map f }

/-- The record in the root of a run. -/
def ofOutcome {α : Type} (read : Store → Value → Except Failure α)
    (skipped : Store → Value → List Reading.Skipped) (o : Sandbox.Outcome) : Parsed α :=
  match o.root with
  | .error failure => { result := .error failure, prints := o.prints }
  | .ok v => { result := read o.store v, prints := o.prints, skipped := skipped o.store v }

end Parsed

/-- What a mod tells about itself, in the root of a run. -/
def ModInfo.ofOutcome (o : Sandbox.Outcome) : Parsed ModInfo :=
  .ofOutcome ModInfo.ofValue (fun σ v => Reading.skipped σ (ModInfo.optionsOf σ v)) o

/-- The level in the root of a run. -/
def Level.ofOutcome (o : Sandbox.Outcome) : Parsed Level :=
  .ofOutcome Level.ofValue (fun _ _ => []) o

/-- The record of a kind in the root of a run. -/
def RecordKind.ofOutcome (kind : RecordKind) (o : Sandbox.Outcome) : Parsed Record :=
  match kind with
  | modInfo => (ModInfo.ofOutcome o).map .modInfo
  | level => (Level.ofOutcome o).map .level

/-- Runs a script and reads what a mod tells about itself. -/
def ModInfo.parse (options : SandboxOptions) (source : String) (choices : Choices := {}) :
    Parsed ModInfo :=
  ModInfo.ofOutcome
    (Sandbox.ready options RecordKind.modInfo.root RecordKind.modInfo.chunk source choices)

/-- Runs a script and reads the level that it returns. -/
def Level.parse (options : SandboxOptions) (source : String) (choices : Choices := {}) :
    Parsed Level :=
  Level.ofOutcome
    (Sandbox.ready options RecordKind.level.root RecordKind.level.chunk source choices)

/-- Runs a script and reads its record; there is none if it does not end in `fuel` steps. -/
def RecordKind.parseFor (fuel : Nat) (kind : RecordKind) (options : SandboxOptions)
    (source : String) (choices : Choices) : Option (Parsed Record) :=
  (Sandbox.readyFor fuel options kind.root kind.chunk source choices).map kind.ofOutcome

/-- Runs a script and reads its record. -/
def RecordKind.parse (kind : RecordKind) (options : SandboxOptions) (source : String)
    (choices : Choices := {}) : Parsed Record :=
  kind.ofOutcome (Sandbox.ready options kind.root kind.chunk source choices)

end LuaConfig
