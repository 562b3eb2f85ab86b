/-
Runs of the program.

A run reads at most one file and writes at most one, and it writes only when all else has been
done: what has failed leaves every file as it was.  Where files are is up to `Files`, so that the
same run goes over a `FileTree` and over the files of a machine.  What the interpreter of scripts
chooses is up to it in every run.
-/
import LuaConfig.CommandLine.FileTree
import LuaConfig.CommandLine.Help
import LuaConfig.Json.Records
import LuaConfig.PlayerList
import LuaConfig.Script.Level
import LuaConfig.Script.Record

namespace LuaConfig.CommandLine

open Lua

/-- How files are read and written.  A file that cannot be read has no content. -/
structure Files (m : Type → Type) where
  read : String → m (Option String)
  write : String → String → m Bool

/-- What a run shows: its exit code, and what it has written to the two streams. -/
structure Report where
  code : Nat
  stdout : String := ""
  stderr : String := ""
  deriving DecidableEq, Repr

/-- What a command comes to once its file has been read. -/
inductive Result where
  | content (text : String)
  /-- It has failed; the cause is left out where the message says all. -/
  | failed (message : String) (cause : Option String)
  deriving DecidableEq, Repr

namespace Report

/-- A report on wrong arguments. -/
def usage (e : UsageError) : Report where
  code := 2
  stderr := "error: " ++ e.message ++ "\n\nFor more information, try '--help'.\n"

/-- The lines of a cause below its message. -/
def causeLines (cause : String) : String :=
  "\nCaused by:\n" ++ String.join ((cause.splitOn "\n").map fun line => "    " ++ line ++ "\n")

/-- A report on a failure. -/
def failure (message : String) (cause : Option String) : Report where
  code := 1
  stderr := "Error: " ++ message ++ "\n" ++ (cause.map causeLines).getD ""

/-- A text that is printed to its last line's end. -/
def printed (text : String) : Report where
  code := 0
  stdout := if text.endsWith "\n" then text else text ++ "\n"

def written (path : String) : Report where
  code := 0
  stderr := "Wrote " ++ path ++ "\n"

end Report

namespace Command

/-- The file that a command reads. -/
def file : Command → String
  | modInfo file _ _ _ => file
  | level file _ => file
  | generate file _ _ => file
  | players file => file

/-- The file that a command writes, if it writes one. -/
def output : Command → Option String
  | modInfo _ _ _ output => output
  | level _ output => output
  | generate _ _ output => output
  | players _ => none

/-- What is said of a script that has no record. -/
def diagnosis (path : String) : Failure → String
  | .missingSection name => path ++ " is missing the '" ++ name ++ "' section"
  | .outOfInstructions .. => path ++ " ran too long and was stopped"
  | .execution .. => path ++ " has an error and could not be run"
  | .preparation _ => "Failed to prepare the script sandbox"

/-- What is told about a script on the way to its record. -/
def remarks {α : Type} (verbose : Bool) (p : Parsed α) : String :=
  let prints := if verbose then p.prints.map ("print: " ++ ·) else []
  let skipped := p.skipped.map fun s =>
    "warning: skipping malformed configuration option " ++ s.index ++ " (" ++ s.kind ++ ")"
  String.join ((prints ++ skipped).map (· ++ "\n"))

/-- The record of a script as a document. -/
def document {α : Type} (path : String) (codec : Json.Codec α) (p : Parsed α) : Result :=
  match p.result with
  | .ok r => .content (codec.write r).pretty
  | .error e => .failed (diagnosis path e) (some e.message)

/-- What a command makes of the text in its file, with the remarks on the way. -/
def result (choices : Choices) (verbose : Bool) (text : String) : Command → Result × String
  | modInfo file locale folderName _ =>
    let options : SandboxOptions :=
      { folderName := folderName.getD (Path.folderName file), locale := locale }
    let p := ModInfo.parse options text choices
    (document file .modInfo p, remarks verbose p)
  | level file _ =>
    let p := Level.parse {} text choices
    (document file .level p, remarks verbose p)
  | generate file dialect _ =>
    match Json.Codec.level.parse text with
    | .ok l => (.content (l.script dialect), "")
    | .error _ => (.failed ("Failed to parse level record: " ++ file) none, "")
  | players _ =>
    (.content (Json.array ((PlayerList.parse text).map .string)).pretty, "")

/-- Prints a result or writes it to a file. -/
def emit {m : Type → Type} [Monad m] (files : Files m) (output : Option String) :
    Result → m Report
  | .failed message cause => return .failure message cause
  | .content text =>
    match output with
    | none => return .printed text
    | some path => do
      if ← files.write path text then return .written path
      else return .failure ("Failed to write " ++ path) none

/-- Runs a command. -/
def run {m : Type → Type} [Monad m] (choices : Choices) (files : Files m) (verbose : Bool)
    (c : Command) : m Report := do
  match ← files.read c.file with
  | none => return .failure ("Failed to read " ++ c.file) none
  | some text =>
    let (result, remarks) := c.result choices verbose text
    let report ← emit files c.output result
    return { report with stderr := remarks ++ report.stderr }

end Command

/-- Runs the program. -/
def run {m : Type → Type} [Monad m] (choices : Choices) (files : Files m) (args : List String) :
    m Report :=
  match Request.ofArguments args with
  | .error e => return .usage e
  | .ok (.run verbose command) => command.run choices files verbose
  | .ok (.help verb) => return { code := 0, stdout := help verb }
  | .ok .version => return { code := 0, stdout := program ++ " " ++ version ++ "\n" }
  | .ok .nothing => return { code := 2, stderr := help none }

/-- The files of a tree. -/
def treeFiles : Files (StateM FileTree) where
  read path := do return (← get).read path
  write path text := do
    match (← get).write path text with
    | some t => set t; return true
    | none => return false

/-- Runs the program over a tree of files. -/
def runIn (t : FileTree) (args : List String) (choices : Choices := {}) : Report × FileTree :=
  (run choices treeFiles args).run t

end LuaConfig.CommandLine
