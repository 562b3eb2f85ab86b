/-
The commands of the command line and the options they take.
-/
import LuaConfig.Script.Dialect

namespace LuaConfig.CommandLine

/-- The name of the program. -/
def program : String := "modscript"

/-- The version of the program. -/
def version : String := "0.1.0"

/-- What the program does. -/
def about : String := "modscript - read and write game configuration scripts"

/-- What stands behind an option: any text, a path, or the name of a dialect. -/
inductive Expected where
  | text
  | path
  | dialect
  deriving DecidableEq, Repr

/-- An option.  Its value has a name, if it takes one. -/
structure Switch where
  long : String
  short : Option Char
  value : Option (String × Expected)
  about : String
  deriving DecidableEq, Repr

namespace Switch

/-- What messages call an option. -/
def shown (s : Switch) : String :=
  match s.value with
  | some (name, _) => "--" ++ s.long ++ " <" ++ name ++ ">"
  | none => "--" ++ s.long

def verbose : Switch := ⟨"verbose", some 'v', none, "Enable verbose output"⟩

def help : Switch := ⟨"help", some 'h', none, "Print help"⟩

def version : Switch := ⟨"version", some 'V', none, "Print version"⟩

def locale : Switch :=
  ⟨"locale", some 'l', some ("LOCALE", .text), "Locale used to resolve translated strings [default: ]"⟩

def folderName : Switch :=
  ⟨"folder-name", none, some ("FOLDER_NAME", .text),
    "Mod folder name exposed to the script (defaults to the file's parent directory)"⟩

def dialect : Switch :=
  ⟨"dialect", some 'd', some ("DIALECT", .dialect),
    "Dialect to generate: master or cave [default: master]"⟩

def output : Switch :=
  ⟨"output", some 'o', some ("OUTPUT", .path), "Write to this file instead of stdout"⟩

end Switch

/-- What the program can be told to do. -/
inductive Verb where
  | modInfo
  | level
  | generate
  | players
  deriving DecidableEq, Repr

namespace Verb

/-- All verbs. -/
def all : List Verb := [modInfo, level, generate, players]

/-- The word for a verb. -/
def name : Verb → String
  | modInfo => "modinfo"
  | level => "level"
  | generate => "generate"
  | players => "players"

/-- The verb of a word. -/
def ofName? (name : String) : Option Verb := all.find? (·.name == name)

/-- What a verb does. -/
def about : Verb → String
  | modInfo => "Parse a modinfo.lua and print it as JSON"
  | level => "Parse a leveldataoverride.lua and print it as JSON"
  | generate => "Generate a leveldataoverride.lua from a JSON record"
  | players => "Parse a newline-delimited player id list and print it as JSON"

/-- What the file of a verb is. -/
def fileAbout : Verb → String
  | modInfo => "Path to the modinfo.lua file"
  | level => "Path to the leveldataoverride.lua file"
  | generate => "Path to the JSON record (as printed by `" ++ program ++ " level`)"
  | players => "Path to the list (adminlist.txt, whitelist.txt, ...)"

/-- The options of a verb. -/
def switches : Verb → List Switch
  | modInfo => [.locale, .verbose, .folderName, .output, .help]
  | level => [.output, .verbose, .help]
  | generate => [.dialect, .verbose, .output, .help]
  | players => [.verbose, .help]

end Verb

end LuaConfig.CommandLine
