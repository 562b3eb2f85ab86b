/-
The tables that records cannot do without.

The value that a level's script returns has to be a table, and so has the list of options among the
globals of a mod's script.  Whatever else is there, a record is read.
-/
import LuaConfig.Script.Record
import Mathlib

namespace LuaConfig

open Lua

/-- Is a value a table? -/
def Lua.Value.isTable : Value → Bool
  | table _ => true
  | _ => false

theorem Reading.field_table (σ : Store) (ref : Nat) (key : String) :
    Reading.field σ (.table ref) key = σ.rawGet ref (.ofString key) := by
  show (σ.tables.getD ref {}).getEntry (.ofString key) = _
  rw [Store.rawGet, Array.getD_eq_getD_getElem?]
  cases σ.tables[ref]? with
  | none =>
    rw [Option.getD_none, Table.getEntry]
    split <;> rfl
  | some t => rfl

/-- A mod is described if its list of options is a table. -/
theorem ModInfo.ofValue_of_options {σ : Store} {root : Value} {ref : Nat}
    (h : ModInfo.optionsOf σ root = .table ref) :
    ModInfo.ofValue σ root = .ok (Reading.record (Reading.value σ) σ root ModInfo.fields {}) := by
  cases root with
  | table r => rw [ModInfo.ofValue, h]
  | _ => cases h

namespace RecordKind

/-- The value that a record of a kind cannot do without. -/
def required : RecordKind → Store → Value → Value
  | modInfo, σ, root => ModInfo.optionsOf σ root
  | level, _, root => root

/-- The name of what is missing where a script has no record. -/
def requiredName : RecordKind → String
  | modInfo => ModInfo.optionsKey
  | level => Level.rootName

variable {kind : RecordKind} {o : Sandbox.Outcome} {v : Value} {failure : Failure}

theorem result_of_error (h : o.root = .error failure) :
    (kind.ofOutcome o).result = .error failure := by
  cases kind with
  | level =>
    rw [ofOutcome, Level.ofOutcome, Parsed.ofOutcome, h]
    rfl
  | modInfo =>
    rw [ofOutcome, ModInfo.ofOutcome, Parsed.ofOutcome, h]
    rfl

theorem result_of_value (h : o.root = .ok v) :
    (kind.ofOutcome o).result = match kind with
      | level => (Level.ofValue o.store v).map .level
      | modInfo => (ModInfo.ofValue o.store v).map .modInfo := by
  cases kind with
  | level =>
    rw [ofOutcome, Level.ofOutcome, Parsed.ofOutcome, h]
    rfl
  | modInfo =>
    rw [ofOutcome, ModInfo.ofOutcome, Parsed.ofOutcome, h]
    rfl

/-- A record is read if the table is there that it cannot do without. -/
theorem result_of_required (h : o.root = .ok v) (hv : v.isTable = true)
    (hrequired : (kind.required o.store v).isTable = true) :
    ∃ r, (kind.ofOutcome o).result = .ok r := by
  rw [result_of_value h]
  cases v with
  | table ref =>
    cases kind with
    | level => exact ⟨_, rfl⟩
    | modInfo =>
      have hoptions : (ModInfo.optionsOf o.store (.table ref)).isTable = true := hrequired
      simp only [ModInfo.ofValue]
      cases hv : ModInfo.optionsOf o.store (.table ref) with
      | table ref' => exact ⟨_, rfl⟩
      | _ =>
        rw [hv] at hoptions
        cases hoptions
  | _ => cases hv

/-- If it is not there, that is what is reported. -/
theorem result_of_missing (h : o.root = .ok v) (hv : kind = modInfo → v.isTable = true)
    (hmissing : (kind.required o.store v).isTable = false) :
    (kind.ofOutcome o).result = .error (.missingSection kind.requiredName) := by
  rw [result_of_value h]
  cases kind with
  | level =>
    cases v with
    | table ref => cases hmissing
    | _ => rfl
  | modInfo =>
    cases v with
    | table ref =>
      have hoptions : (ModInfo.optionsOf o.store (.table ref)).isTable = false := hmissing
      simp only [ModInfo.ofValue]
      cases hv' : ModInfo.optionsOf o.store (.table ref) with
      | table ref' =>
        rw [hv'] at hoptions
        cases hoptions
      | _ => rfl
    | _ => cases hv rfl

/-- Where a run has a root, nothing but a missing table keeps a record from being read. -/
theorem result_of_ok (h : o.root = .ok v) :
    (∃ r, (kind.ofOutcome o).result = .ok r) ∨
      ∃ name, (kind.ofOutcome o).result = .error (.missingSection name) := by
  rw [result_of_value h]
  cases kind with
  | level =>
    cases v with
    | table ref => exact .inl ⟨_, rfl⟩
    | _ => exact .inr ⟨_, rfl⟩
  | modInfo =>
    cases v with
    | table ref =>
      simp only [ModInfo.ofValue]
      split
      · exact .inl ⟨_, rfl⟩
      · exact .inr ⟨_, rfl⟩
    | _ => exact .inr ⟨_, rfl⟩

end RecordKind

end LuaConfig
