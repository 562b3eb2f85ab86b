/-
What the program tells about itself.
-/
import LuaConfig.CommandLine.Request

namespace LuaConfig.CommandLine

/-- Lines of names and what is said about them, which begins in one column. -/
def columns (rows : List (String × String)) : String :=
  let width := rows.foldl (fun n (name, _) => max n name.length) 0
  String.join (rows.map fun (name, about) =>
    "  " ++ name ++ String.ofList (List.replicate (width + 2 - name.length) ' ') ++ about ++ "\n")

/-- The names of an option. -/
def Switch.names (s : Switch) : String :=
  match s.short with
  | some c => String.ofList ['-', c] ++ ", " ++ s.shown
  | none => "    " ++ s.shown

/-- The rows of options. -/
def switchRows (switches : List Switch) : List (String × String) :=
  switches.map fun s => (s.names, s.about)

/-- The help for a verb, or for the whole program. -/
def help : Option Verb → String
  | none =>
    about ++ "\n\nUsage: " ++ program ++ " [OPTIONS] <COMMAND>\n\nCommands:\n" ++
      columns (Verb.all.map (fun v => (v.name, v.about)) ++
        [("help", "Print this message or the help of the given subcommand(s)")]) ++
      "\nOptions:\n" ++ columns (switchRows Request.switches)
  | some verb =>
    verb.about ++ "\n\nUsage: " ++ program ++ " " ++ verb.name ++ " [OPTIONS] " ++ fileShown ++
      "\n\nArguments:\n" ++ columns [(fileShown, verb.fileAbout)] ++
      "\nOptions:\n" ++ columns (switchRows verb.switches)

end LuaConfig.CommandLine
