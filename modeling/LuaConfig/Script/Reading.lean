/-
Records in the tables of scripts.

A record is read field by field, metatables being left aside.  A field that is missing, or whose
value cannot be taken for what it should be, has its default; only a section that a record cannot
do without has to be there.  What stands where it does not belong is passed over.
-/
import LuaConfig.Lua.Projection
import LuaConfig.Lua.Store
import LuaConfig.Record.Basic
import LuaConfig.Record.Field
import LuaConfig.Sandbox.Failure

namespace LuaConfig

open Lua

namespace Reading

/-- The pairs of a table in the order of a walk; other values have none. -/
def entries (σ : Store) : Value → List (Value × Value)
  | .table ref => (σ.table ref).pairs
  | _ => []

/-- The values of a table in the order of a walk. -/
def values (σ : Store) (v : Value) : List Value := (entries σ v).map (·.2)

/-- The texts among the values of a table. -/
def texts (σ : Store) (v : Value) : List String := (values σ v).filterMap Value.text?

/-- The numbers among the values of a table. -/
def numbers (σ : Store) (v : Value) : List Float := (values σ v).filterMap Value.double?

/-- The value of a string key of a table; other values have none. -/
def field (σ : Store) (v : Value) (key : String) : Value :=
  match v with
  | .table ref => (σ.table ref).field key
  | _ => .nil

/-- The overrides among entries: the keys that have a text, with values that are scalars. -/
def overridesAmong (entries : List (Value × Value)) : List Override :=
  entries.filterMap fun (key, value) => do
    return ⟨← key.text?, ← value.scalar?⟩

/-- The overrides of a table. -/
def overrides (σ : Store) (v : Value) : List Override := overridesAmong (entries σ v)

/-- A choice of an option.  One without a description is described by its data. -/
def item (σ : Store) (v : Value) : OptionItem :=
  let data := (field σ v "data").scalar?
  let description := (field σ v "description").text?.getD ""
  let shown := (data.map Scalar.display).getD ""
  { description := if description.isEmpty then shown else description, data := data }

/-- The tables among the values of a table. -/
def tables (σ : Store) (v : Value) : List Value :=
  (values σ v).filter fun
    | .table _ => true
    | _ => false

def items (σ : Store) (v : Value) : List OptionItem := (tables σ v).map (item σ)

/-- A value as the value of a field that is not a list of options. -/
def leaf (σ : Store) : (kind : Kind) → Value → kind.Value
  | .text, v => v.text?.getD ""
  | .flag, v => v.flag?.getD false
  | .number, v => v.double?.getD 0
  | .whole, v => v.whole?.getD 0
  | .scalar, v => v.scalar?.getD (.bool false)
  | .choice, v => v.scalar?
  | .limit, v => v.whole?.bind fun n => n.toInt.toNat?
  | .texts, v => texts σ v
  | .numbers, v => numbers σ v
  | .overrides, v => overrides σ v
  | .items, v => items σ v
  | .options, _ => []

/-- The record whose fields are those of a table. -/
def record {ρ : Type} (read : (kind : Kind) → Value → kind.Value) (σ : Store) (v : Value)
    (fields : List (Field ρ)) (blank : ρ) : ρ :=
  fields.foldl (fun r f => f.set (read f.kind (field σ v f.key)) r) blank

def option (σ : Store) (v : Value) : ModOption := record (leaf σ) σ v ModOption.fields {}

def options (σ : Store) (v : Value) : List ModOption := (tables σ v).map (option σ)

/-- A value as the value of a field. -/
def value (σ : Store) : (kind : Kind) → Value → kind.Value
  | .options, v => options σ v
  | kind, v => leaf σ kind v

/-- An entry that was passed over: the text of its key, and the kind of its value. -/
structure Skipped where
  index : String
  kind : String
  deriving DecidableEq, Repr

/-- The entries of a list of options that are none. -/
def skipped (σ : Store) (v : Value) : List Skipped :=
  (entries σ v).filterMap fun
    | (_, .table _) => none
    | (key, value) => some ⟨key.text?.getD "", value.kindName⟩

end Reading

/-- The section that is missing where a script has returned no table. -/
def Level.rootName : String := "return value"

/-- The section that is missing where there are no globals. -/
def ModInfo.rootName : String := "globals"

/-- The level that a value describes. -/
def Level.ofValue (σ : Store) : Value → Except Failure Level
  | .table ref => .ok (Reading.record (Reading.value σ) σ (.table ref) Level.fields {})
  | _ => .error (.missingSection Level.rootName)

/-- The list of options in a mod's description. -/
def ModInfo.optionsOf (σ : Store) (root : Value) : Value :=
  Reading.field σ root ModInfo.optionsKey

/-- The mod that a value describes. -/
def ModInfo.ofValue (σ : Store) : Value → Except Failure ModInfo
  | .table ref =>
    match ModInfo.optionsOf σ (.table ref) with
    | .table _ => .ok (Reading.record (Reading.value σ) σ (.table ref) ModInfo.fields {})
    | _ => .error (.missingSection ModInfo.optionsKey)
  | _ => .error (.missingSection ModInfo.rootName)

end LuaConfig
