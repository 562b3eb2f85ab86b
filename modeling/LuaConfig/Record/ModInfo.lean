/-
What a mod tells about itself, and the options it offers.
-/
import LuaConfig.Record.Scalar

namespace LuaConfig

/-- One choice of an option. -/
structure OptionItem where
  description : String := ""
  data : Option Scalar := none
  deriving DecidableEq

/-- An option that players can set. -/
structure ModOption where
  name : String := ""
  label : String := ""
  hover : String := ""
  default : Option Scalar := none
  client : Bool := false
  tags : List String := []
  options : List OptionItem := []
  deriving DecidableEq

/-- A mod's description of itself. -/
structure ModInfo where
  id : String := ""
  name : String := ""
  description : String := ""
  author : String := ""
  version : String := ""
  forumThread : String := ""
  apiVersion : Int64 := 0
  dontStarveCompatible : Bool := false
  reignOfGiantsCompatible : Bool := false
  shipwreckedCompatible : Bool := false
  hamletCompatible : Bool := false
  apiVersionDst : Int64 := 0
  dstCompatible : Bool := false
  allClientsRequireMod : Bool := false
  clientOnlyMod : Bool := false
  serverOnlyMod : Bool := false
  forgeCompatible : Bool := false
  serverFilterTags : List String := []
  priority : Float := 0
  icon : String := ""
  iconAtlas : String := ""
  configurationOptions : List ModOption := []
  deriving DecidableEq

/-- The first option of the given name. -/
def ModInfo.option? (info : ModInfo) (name : String) : Option ModOption :=
  info.configurationOptions.find? (·.name == name)

end LuaConfig
