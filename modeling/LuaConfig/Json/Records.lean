/-
The documents of records, kinds and dialects.
-/
import LuaConfig.Json.Codec
import LuaConfig.Record.Basic
import LuaConfig.Sandbox.Options
import LuaConfig.Script.Dialect

namespace LuaConfig.Json.Codec

def override : Codec Override := ofSchema overrideSchema

def item : Codec OptionItem := ofSchema itemSchema

def option : Codec ModOption := ofSchema optionSchema

def modInfo : Codec ModInfo := ofSchema modInfoSchema

def level : Codec Level := ofSchema levelSchema

def sandboxOptions : Codec SandboxOptions := ofSchema (.open {} SandboxOptions.fields)

def recordKind : Codec RecordKind := word RecordKind.all RecordKind.name

def dialect : Codec Dialect := word [.master, .cave] Dialect.name

/-- A record of either kind, which its document does not tell. -/
def writeRecord : Record → Json
  | .modInfo info => modInfo.write info
  | .level l => level.write l

end LuaConfig.Json.Codec
