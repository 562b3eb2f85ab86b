/-
What a script is told, and how far it may go.
-/
import LuaConfig.Record.Field

namespace LuaConfig

/-- The name of the folder and the language that a script is told, and its limits on instructions
and on memory, in octets.  A missing limit, and a memory limit of zero, is none. -/
structure SandboxOptions where
  folderName : String := ""
  locale : String := ""
  instructionLimit : Option Nat := some 10000000
  memoryLimit : Option Nat := some 67108864
  deriving DecidableEq

namespace SandboxOptions

/-- The same options without limits. -/
def unlimited (options : SandboxOptions) : SandboxOptions :=
  { options with instructionLimit := none, memoryLimit := none }

/-- The fields of the options. -/
def fields : List (Field SandboxOptions) :=
  [{ key := "folder_name", kind := .text, get := (·.folderName)
     set := fun v r => { r with folderName := v } },
   { key := "locale", kind := .text, get := (·.locale)
     set := fun v r => { r with locale := v } },
   { key := "instruction_limit", kind := .limit, get := (·.instructionLimit)
     set := fun v r => { r with instructionLimit := v } },
   { key := "memory_limit", kind := .limit, get := (·.memoryLimit)
     set := fun v r => { r with memoryLimit := v } }]

end SandboxOptions

end LuaConfig
