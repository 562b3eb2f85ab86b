/-
The two kinds of records.
-/
import LuaConfig.Record.ModInfo
import LuaConfig.Record.Level

namespace LuaConfig

/-- Which record a script describes. -/
inductive RecordKind where
  | modInfo
  | level
  deriving DecidableEq, Repr

/-- The name of a kind. -/
def RecordKind.name : RecordKind → String
  | modInfo => "mod_info"
  | level => "level_overrides"

/-- All kinds. -/
def RecordKind.all : List RecordKind := [modInfo, level]

/-- A record of either kind. -/
inductive Record where
  | modInfo (info : ModInfo)
  | level (level : Level)
  deriving DecidableEq

end LuaConfig
