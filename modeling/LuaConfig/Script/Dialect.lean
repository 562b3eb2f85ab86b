/-
The two dialects of level scripts.  The script of the caves carries one field that the script of
the main world does not; in both the fields stand in the order of their keys.
-/
import LuaConfig.Record.Field

namespace LuaConfig

/-- Whose script it is: the main world's or the caves'. -/
inductive Dialect where
  | master
  | cave
  deriving DecidableEq, Repr

namespace Dialect

/-- The dialect taken where none is named. -/
def standard : Dialect := master

/-- The name of a dialect. -/
def name : Dialect → String
  | master => "master"
  | cave => "cave"

/-- A name with its ASCII capitals made small. -/
def foldCase (name : String) : String :=
  String.ofList (name.toList.map Char.toLower)

/-- The dialect of the given name, in either case. -/
def ofName? (name : String) : Option Dialect :=
  [master, cave].find? (·.name == foldCase name)

/-- What is said of a name that no dialect has. -/
def unknownMessage (name : String) : String :=
  "unknown dialect '" ++ name ++ "', expected 'master' or 'cave'"

open Level in
/-- The fields that both dialects carry. -/
def sharedFields : List (Field Level) :=
  [descField, hideMinimapField, idField, locationField, maxPlaylistPositionField,
   minPlaylistPositionField, nameField, numRandomSetPiecesField, overrideLevelStringField,
   overridesField, playstyleField, randomSetPiecesField, requiredPrefabsField,
   requiredSetpiecesField, settingsDescField, settingsIdField, settingsNameField,
   substitutesField, versionField, worldgenDescField, worldgenIdField, worldgenNameField]

/-- The fields of a dialect, in the order in which its scripts carry them. -/
def fields : Dialect → List (Field Level)
  | master => sharedFields
  | cave => Level.backgroundNodeRangeField :: sharedFields

end Dialect

end LuaConfig
