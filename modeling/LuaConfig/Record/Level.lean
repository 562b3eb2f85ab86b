/-
The settings of a generated world.
-/
import LuaConfig.Record.Scalar

namespace LuaConfig

/-- One setting of a world that departs from its preset. -/
structure Override where
  name : String
  value : Scalar
  deriving DecidableEq

/-- The settings of one world: its presets, its overrides and the pieces it is built from. -/
structure Level where
  id : String := ""
  name : String := ""
  desc : String := ""
  version : Float := 0
  location : String := ""
  playstyle : String := ""
  hideMinimap : Bool := false
  maxPlaylistPosition : Float := 0
  minPlaylistPosition : Float := 0
  numRandomSetPieces : Int64 := 0
  overrideLevelString : Bool := false
  settingsId : String := ""
  settingsName : String := ""
  settingsDesc : String := ""
  worldgenId : String := ""
  worldgenName : String := ""
  worldgenDesc : String := ""
  overrides : List Override := []
  randomSetPieces : List String := []
  requiredPrefabs : List String := []
  requiredSetpieces : List String := []
  substitutes : List String := []
  backgroundNodeRange : List Float := []
  deriving DecidableEq

/-- The value of the first override of the given name. -/
def Level.override? (level : Level) (name : String) : Option Scalar :=
  (level.overrides.find? (·.name == name)).map (·.value)

end LuaConfig
