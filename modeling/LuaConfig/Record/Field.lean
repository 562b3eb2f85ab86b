/-
Records as lists of named fields.

A `Field` names one component of a record: its key, which is the same in scripts and in JSON, the
kind of its value, and how to read and replace it.  Whatever is done to every field of a record
(reading it from a script or from JSON, writing it) is defined once for each `Kind` and then runs
over the list of fields.
-/
import LuaConfig.Record.ModInfo
import LuaConfig.Record.Level

namespace LuaConfig

/-- The kinds of values that fields hold. -/
inductive Kind where
  | text
  | flag
  | number
  | whole
  | scalar
  | choice
  | limit
  | texts
  | numbers
  | overrides
  | items
  | options
  deriving DecidableEq, Repr

/-- The values of a kind. -/
@[reducible] def Kind.Value : Kind → Type
  | text => String
  | flag => Bool
  | number => Float
  | whole => Int64
  | scalar => Scalar
  | choice => Option Scalar
  | limit => Option Nat
  | texts => List String
  | numbers => List Float
  | overrides => List Override
  | items => List OptionItem
  | options => List ModOption

/-- A named component of the records `ρ`. -/
structure Field (ρ : Type) where
  key : String
  kind : Kind
  get : ρ → kind.Value
  set : kind.Value → ρ → ρ
  get_set : ∀ v r, get (set v r) = v := by intros; rfl

/-- The fields of a choice. -/
def OptionItem.fields : List (Field OptionItem) :=
  [{ key := "description", kind := .text, get := (·.description)
     set := fun v r => { r with description := v } },
   { key := "data", kind := .choice, get := (·.data), set := fun v r => { r with data := v } }]

/-- The fields of an option. -/
def ModOption.fields : List (Field ModOption) :=
  [{ key := "name", kind := .text, get := (·.name), set := fun v r => { r with name := v } },
   { key := "label", kind := .text, get := (·.label), set := fun v r => { r with label := v } },
   { key := "hover", kind := .text, get := (·.hover), set := fun v r => { r with hover := v } },
   { key := "default", kind := .choice, get := (·.default)
     set := fun v r => { r with default := v } },
   { key := "client", kind := .flag, get := (·.client), set := fun v r => { r with client := v } },
   { key := "tags", kind := .texts, get := (·.tags), set := fun v r => { r with tags := v } },
   { key := "options", kind := .items, get := (·.options)
     set := fun v r => { r with options := v } }]

/-- The key of the section that a mod's description cannot do without. -/
def ModInfo.optionsKey : String := "configuration_options"

/-- The fields of a mod's description. -/
def ModInfo.fields : List (Field ModInfo) :=
  [{ key := "id", kind := .text, get := (·.id), set := fun v r => { r with id := v } },
   { key := "name", kind := .text, get := (·.name), set := fun v r => { r with name := v } },
   { key := "description", kind := .text, get := (·.description)
     set := fun v r => { r with description := v } },
   { key := "author", kind := .text, get := (·.author), set := fun v r => { r with author := v } },
   { key := "version", kind := .text, get := (·.version)
     set := fun v r => { r with version := v } },
   { key := "forum_thread", kind := .text, get := (·.forumThread)
     set := fun v r => { r with forumThread := v } },
   { key := "api_version", kind := .whole, get := (·.apiVersion)
     set := fun v r => { r with apiVersion := v } },
   { key := "dont_starve_compatible", kind := .flag, get := (·.dontStarveCompatible)
     set := fun v r => { r with dontStarveCompatible := v } },
   { key := "reign_of_giants_compatible", kind := .flag, get := (·.reignOfGiantsCompatible)
     set := fun v r => { r with reignOfGiantsCompatible := v } },
   { key := "shipwrecked_compatible", kind := .flag, get := (·.shipwreckedCompatible)
     set := fun v r => { r with shipwreckedCompatible := v } },
   { key := "hamlet_compatible", kind := .flag, get := (·.hamletCompatible)
     set := fun v r => { r with hamletCompatible := v } },
   { key := "api_version_dst", kind := .whole, get := (·.apiVersionDst)
     set := fun v r => { r with apiVersionDst := v } },
   { key := "dst_compatible", kind := .flag, get := (·.dstCompatible)
     set := fun v r => { r with dstCompatible := v } },
   { key := "all_clients_require_mod", kind := .flag, get := (·.allClientsRequireMod)
     set := fun v r => { r with allClientsRequireMod := v } },
   { key := "client_only_mod", kind := .flag, get := (·.clientOnlyMod)
     set := fun v r => { r with clientOnlyMod := v } },
   { key := "server_only_mod", kind := .flag, get := (·.serverOnlyMod)
     set := fun v r => { r with serverOnlyMod := v } },
   { key := "forge_compatible", kind := .flag, get := (·.forgeCompatible)
     set := fun v r => { r with forgeCompatible := v } },
   { key := "server_filter_tags", kind := .texts, get := (·.serverFilterTags)
     set := fun v r => { r with serverFilterTags := v } },
   { key := "priority", kind := .number, get := (·.priority)
     set := fun v r => { r with priority := v } },
   { key := "icon", kind := .text, get := (·.icon), set := fun v r => { r with icon := v } },
   { key := "icon_atlas", kind := .text, get := (·.iconAtlas)
     set := fun v r => { r with iconAtlas := v } },
   { key := ModInfo.optionsKey, kind := .options, get := (·.configurationOptions)
     set := fun v r => { r with configurationOptions := v } }]

/-- The fields of an override. -/
def Override.fields : List (Field Override) :=
  [{ key := "name", kind := .text, get := (·.name), set := fun v r => { r with name := v } },
   { key := "value", kind := .scalar, get := (·.value), set := fun v r => { r with value := v } }]

namespace Level

def idField : Field Level where
  key := "id"
  kind := .text
  get := (·.id)
  set v r := { r with id := v }

def nameField : Field Level where
  key := "name"
  kind := .text
  get := (·.name)
  set v r := { r with name := v }

def descField : Field Level where
  key := "desc"
  kind := .text
  get := (·.desc)
  set v r := { r with desc := v }

def versionField : Field Level where
  key := "version"
  kind := .number
  get := (·.version)
  set v r := { r with version := v }

def locationField : Field Level where
  key := "location"
  kind := .text
  get := (·.location)
  set v r := { r with location := v }

def playstyleField : Field Level where
  key := "playstyle"
  kind := .text
  get := (·.playstyle)
  set v r := { r with playstyle := v }

def hideMinimapField : Field Level where
  key := "hideminimap"
  kind := .flag
  get := (·.hideMinimap)
  set v r := { r with hideMinimap := v }

def maxPlaylistPositionField : Field Level where
  key := "max_playlist_position"
  kind := .number
  get := (·.maxPlaylistPosition)
  set v r := { r with maxPlaylistPosition := v }

def minPlaylistPositionField : Field Level where
  key := "min_playlist_position"
  kind := .number
  get := (·.minPlaylistPosition)
  set v r := { r with minPlaylistPosition := v }

def numRandomSetPiecesField : Field Level where
  key := "numrandom_set_pieces"
  kind := .whole
  get := (·.numRandomSetPieces)
  set v r := { r with numRandomSetPieces := v }

def overrideLevelStringField : Field Level where
  key := "override_level_string"
  kind := .flag
  get := (·.overrideLevelString)
  set v r := { r with overrideLevelString := v }

def settingsIdField : Field Level where
  key := "settings_id"
  kind := .text
  get := (·.settingsId)
  set v r := { r with settingsId := v }

def settingsNameField : Field Level where
  key := "settings_name"
  kind := .text
  get := (·.settingsName)
  set v r := { r with settingsName := v }

def settingsDescField : Field Level where
  key := "settings_desc"
  kind := .text
  get := (·.settingsDesc)
  set v r := { r with settingsDesc := v }

def worldgenIdField : Field Level where
  key := "worldgen_id"
  kind := .text
  get := (·.worldgenId)
  set v r := { r with worldgenId := v }

def worldgenNameField : Field Level where
  key := "worldgen_name"
  kind := .text
  get := (·.worldgenName)
  set v r := { r with worldgenName := v }

def worldgenDescField : Field Level where
  key := "worldgen_desc"
  kind := .text
  get := (·.worldgenDesc)
  set v r := { r with worldgenDesc := v }

def overridesField : Field Level where
  key := "overrides"
  kind := .overrides
  get := (·.overrides)
  set v r := { r with overrides := v }

def randomSetPiecesField : Field Level where
  key := "random_set_pieces"
  kind := .texts
  get := (·.randomSetPieces)
  set v r := { r with randomSetPieces := v }

def requiredPrefabsField : Field Level where
  key := "required_prefabs"
  kind := .texts
  get := (·.requiredPrefabs)
  set v r := { r with requiredPrefabs := v }

def requiredSetpiecesField : Field Level where
  key := "required_setpieces"
  kind := .texts
  get := (·.requiredSetpieces)
  set v r := { r with requiredSetpieces := v }

def substitutesField : Field Level where
  key := "substitutes"
  kind := .texts
  get := (·.substitutes)
  set v r := { r with substitutes := v }

def backgroundNodeRangeField : Field Level where
  key := "background_node_range"
  kind := .numbers
  get := (·.backgroundNodeRange)
  set v r := { r with backgroundNodeRange := v }

/-- The fields of a level. -/
def fields : List (Field Level) :=
  [idField, nameField, descField, versionField, locationField, playstyleField, hideMinimapField,
   maxPlaylistPositionField, minPlaylistPositionField, numRandomSetPiecesField,
   overrideLevelStringField, settingsIdField, settingsNameField, settingsDescField,
   worldgenIdField, worldgenNameField, worldgenDescField, overridesField, randomSetPiecesField,
   requiredPrefabsField, requiredSetpiecesField, substitutesField, backgroundNodeRangeField]

end Level

end LuaConfig
