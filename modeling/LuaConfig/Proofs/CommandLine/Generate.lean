/-
Scripts that go through JSON.

A level can be printed as JSON, and its script be generated from what has been printed.

Main statements:
* `generate_printed` — this gives the script of the level, in either dialect, if all its numbers are
  finite, and is refused otherwise;
* `generate_printed_infinite` — a level that is printed and refused.
-/
import LuaConfig.Proofs.CommandLine.Output
import LuaConfig.Proofs.Json.Refuse
import LuaConfig.Proofs.Sandbox.Run
import LuaConfig.Proofs.Script.Lines
import LuaConfig.Proofs.Script.Reread

namespace LuaConfig.CommandLine

open Decimal Json Lua Lua.Machine Sandbox

/-! ### Commands that print -/

/-- A command without output file shows what it makes of its file, and leaves all files as they
are. -/
theorem runIn_of_request (choices : Choices) {t : FileTree} {args : List String} {verbose : Bool}
    {command : Command}
    (hrequest : Request.ofArguments args = .ok (.run verbose command))
    (houtput : command.output = none) :
    runIn t args choices =
      (match t.read command.file with
        | none => .failure ("Failed to read " ++ command.file) none
        | some text => command.report choices verbose text, t) := by
  have hrun : runIn t args choices = (command.run choices FileTree.system.files verbose).run t :=
    run_of_request FileTree.system t choices hrequest
  have hread : (FileTree.system.files.read command.file).run t = (t.read command.file, t) := rfl
  rw [hrun, run_command, houtput, hread]
  cases t.read command.file with
  | none => rfl
  | some text =>
    unfold Command.report
    dsimp only
    cases (command.result choices verbose text).1 <;> rfl

/-! ### Printed levels -/

theorem report_level (choices : Choices) (verbose : Bool) (file source : String) :
    (Command.level file none).report choices verbose source =
      let p := Level.parse {} source choices
      let shown := (Command.document file Codec.level p).shown
      { shown with stderr := Command.remarks verbose p ++ shown.stderr } := rfl

/-- A command that has printed a level has read it from its script. -/
theorem exists_level_of_code {choices : Choices} {t : FileTree} {args : List String} {verbose : Bool} {file : String}
    (hrequest : Request.ofArguments args = .ok (.run verbose (.level file none)))
    (hcode : (runIn t args choices).1.code = 0) :
    ∃ source level, t.read file = some source ∧
      (Level.parse {} source choices).result = .ok level ∧
      (runIn t args choices).1.stdout = (Report.printed (Codec.level.write level).pretty).stdout := by
  have hrun := runIn_of_request choices (t := t) hrequest rfl
  rw [Command.file] at hrun
  rw [hrun] at hcode ⊢
  -- every other report has a code of its own
  cases hread : t.read file with
  | none =>
    rw [hread] at hcode
    cases hcode
  | some source =>
    rw [hread] at hcode
    simp only [report_level] at hcode ⊢
    cases hparse : (Level.parse {} source choices).result with
    | error failure =>
      rw [Command.document, hparse] at hcode
      cases hcode
    | ok level =>
      refine ⟨source, level, rfl, hparse, ?_⟩
      rw [Command.document, hparse]
      rfl

/-- What is printed is the document, and at most the end of its last line. -/
theorem toList_printed (text : String) :
    ∃ blanks, Blank blanks ∧ (Report.printed text).stdout.toList = text.toList ++ blanks := by
  unfold Report.printed
  dsimp only
  split
  · exact ⟨[], blank_nil, (List.append_nil _).symm⟩
  · exact ⟨['\n'], by simp [Blank, isBlank], by simp⟩

/-- A script ends with the end of a line, so nothing is added when it is printed. -/
theorem printed_script (level : Level) (dialect : Dialect) :
    Report.printed (level.script dialect) = { code := 0, stdout := level.script dialect } := by
  have htext : (level.script dialect).toList =
      Script.ended ("return \x7b" :: dialect.fields.flatMap (Script.fieldLines level)) ++
        ['\x7d', '\n'] := by
    rw [Level.script, Script.toList_join_ended, Level.scriptLines, Script.ended_append]
    rfl
  have hend : (level.script dialect).endsWith "\n" = true := by
    rw [String.endsWith_eq_endsWith_toSlice, String.Slice.endsWith_string_iff, String.copy_toSlice,
      htext]
    exact List.IsSuffix.trans ⟨['\x7d'], rfl⟩ (List.suffix_append _ _)
  rw [Report.printed, if_pos hend]

theorem report_generate (choices : Choices) (verbose : Bool) (json text : String) (dialect : Dialect) :
    (Command.generate json dialect none).report choices verbose text =
      match Codec.level.parse text with
      | .ok level => .printed (level.script dialect)
      | .error _ => .failure ("Failed to parse level record: " ++ json) none := by
  unfold Command.report Command.result
  cases Codec.level.parse text <;> rfl

/-- A level that has been printed is read back if its numbers are finite. -/
theorem parse_printed {level : Level} (hfaithful : AllFloats Faithful (Codec.level.write level))
    (hfinite : AllFloats Finite (Codec.level.write level)) :
    Codec.level.parse (Report.printed (Codec.level.write level).pretty).stdout = .ok level := by
  obtain ⟨blanks, hblank, htext⟩ := toList_printed (Codec.level.write level).pretty
  rw [toList_pretty] at htext
  exact parse_of_tells (tells_level hfaithful hfinite) .pretty hblank htext

/-- A level that has been printed is refused if one of its numbers is not finite. -/
theorem parse_printed_of_infinite {level : Level}
    (hfaithful : AllFloats Faithful (Codec.level.write level))
    (hfinite : ¬ AllFloats Finite (Codec.level.write level)) :
    ∃ fault, Codec.level.parse (Report.printed (Codec.level.write level).pretty).stdout =
      .error fault := by
  obtain ⟨blanks, hblank, htext⟩ := toList_printed (Codec.level.write level).pretty
  obtain ⟨fault, hrefused⟩ := refuses_level hfaithful hfinite .pretty 0 blank_nil
    (stops_of_blank hblank)
  rw [toList_pretty] at htext
  rw [List.nil_append] at hrefused
  exact ⟨fault, by rw [Codec.parse, htext, hrefused]⟩

/-! ### Scripts through JSON -/

/-- The JSON that has been printed for a script gives the script of its level, in either dialect, if
the numbers of the level are finite, and is refused otherwise, whatever the interpreter of scripts
chooses. -/
theorem generate_printed (choices choices' : Choices) {t t' : FileTree}
    {args args' : List String} {verbose verbose' : Bool} {file json : String} {dialect : Dialect}
    (hlevel : Request.ofArguments args = .ok (.run verbose (.level file none)))
    (hgenerate : Request.ofArguments args' = .ok (.run verbose' (.generate json dialect none)))
    (hcode : (runIn t args choices).1.code = 0)
    (hjson : t'.read json = some (runIn t args choices).1.stdout) :
    ∃ source level, t.read file = some source ∧
      (Level.parse {} source choices).result = .ok level ∧
      ((∀ x ∈ (Codec.level.write level).floats, Faithful x) →
        runIn t' args' choices' =
          (if ∀ x ∈ (Codec.level.write level).floats, (Decimal.Binary64.ofFloat x).isFinite
            then { code := 0, stdout := level.script dialect }
            else .failure ("Failed to parse level record: " ++ json) none, t')) := by
  obtain ⟨source, level, hread, hparse, hstdout⟩ := exists_level_of_code hlevel hcode
  refine ⟨source, level, hread, hparse, fun hfaithful => ?_⟩
  rw [runIn_of_request choices' hgenerate rfl, Command.file, hjson]
  dsimp only
  rw [report_generate]
  congr 1
  split_ifs with hfinite
  · have hparsed := parse_printed hfaithful hfinite
    rw [← hstdout] at hparsed
    rw [hparsed]
    exact printed_script level dialect
  · obtain ⟨fault, hrefused⟩ := parse_printed_of_infinite hfaithful hfinite
    rw [← hstdout] at hrefused
    rw [hrefused]

/-- The tree with one file. -/
def single (path text : String) : FileTree := .ofList [(path, text)]

theorem read_single {path : String} (text : String) (hsteps : Path.steps path = [path])
    (hname : path ∉ ["", ".", ".."]) (hrelative : path.startsWith "/" = false) :
    (single path text).read path = some text := by
  simp only [List.mem_cons, List.not_mem_nil, or_false, not_or] at hname
  obtain ⟨hempty, hhere, hback⟩ := hname
  have hnames : Path.names path = [path] := by simp [Path.names, hsteps, hempty, hhere]
  have hplace : (single path text).resolve path = some [path] := by
    simp [FileTree.resolve, hsteps, FileTree.walk, FileTree.isDirectory, hempty, hhere, hback,
      hrelative]
  rw [FileTree.read, hplace]
  simp [single, FileTree.ofList, hnames]

theorem read_levelScript (text : String) :
    (single "level.lua" text).read "level.lua" = some text :=
  read_single text (by decide) (by decide) (by simp)

theorem read_levelJson (text : String) :
    (single "level.json" text).read "level.json" = some text :=
  read_single text (by decide) (by decide) (by simp)

theorem request_level : Request.ofArguments ["level", "level.lua"] =
    .ok (.run false (.level "level.lua" none)) := by decide

theorem request_generate : Request.ofArguments ["generate", "level.json"] =
    .ok (.run false (.generate "level.json" .master none)) := by decide

theorem generate_printed_two :
    let printed := (runIn (single "level.lua" "{version=2}") ["level", "level.lua"]).1
    let tree := single "level.json" printed.stdout
    printed.code = 0 ∧ runIn tree ["generate", "level.json"] =
      ({ code := 0, stdout := Level.script { version := 2 } .master }, tree) := by
  intro printed tree
  have hcode : printed.code = 0 := by decide +kernel
  have hjson : tree.read "level.json" = some printed.stdout := read_levelJson printed.stdout
  obtain ⟨source, level, hread, hparse, hgenerate⟩ :=
    generate_printed {} {} request_level request_generate hcode hjson
  obtain rfl : "{version=2}" = source :=
    Option.some.inj ((read_levelScript "{version=2}").symm.trans hread)
  have htwo : (Level.parse {} "{version=2}").result = .ok { version := 2 } := by decide +kernel
  obtain rfl : { version := 2 } = level := Except.ok.inj (htwo.symm.trans hparse)
  have hback : ∀ x ∈ (Codec.level.write { version := 2 }).floats, ReadsBack x := by
    unfold ReadsBack
    decide +kernel
  have hfinite :
      ∀ x ∈ (Codec.level.write { version := 2 }).floats, (Binary64.ofFloat x).isFinite := by
    decide +kernel
  exact ⟨hcode, by rw [hgenerate fun x hx _ => hback x hx, if_pos hfinite]⟩

/-- The infinite number above all others. -/
def infinite : Float := ofMagnitudeBits false infinityBits

/-- A number that is not finite is printed, but what has been printed is refused. -/
theorem generate_printed_infinite :
    let printed := (runIn (single "level.lua" "{version=1/0}") ["level", "level.lua"]).1
    let tree := single "level.json" printed.stdout
    printed.code = 0 ∧ runIn tree ["generate", "level.json"] =
      (.failure "Failed to parse level record: level.json" none, tree) := by
  intro printed tree
  have hcode : printed.code = 0 := by decide +kernel
  have hjson : tree.read "level.json" = some printed.stdout := read_levelJson printed.stdout
  obtain ⟨source, level, hread, hparse, hstdout⟩ := exists_level_of_code request_level hcode
  obtain rfl : "{version=1/0}" = source :=
    Option.some.inj ((read_levelScript "{version=1/0}").symm.trans hread)
  have hlevel : (Level.parse {} "{version=1/0}").result = .ok { version := infinite } := by
    decide +kernel
  obtain rfl : { version := infinite } = level := Except.ok.inj (hlevel.symm.trans hparse)
  have hfaithful : AllFloats Faithful (Codec.level.write { version := infinite }) := by
    unfold AllFloats Faithful Json.Finite ReadsBack
    decide +kernel
  have hinfinite : ¬ AllFloats Finite (Codec.level.write { version := infinite }) := by
    unfold AllFloats Json.Finite
    decide +kernel
  obtain ⟨fault, hrefused⟩ := parse_printed_of_infinite hfaithful hinfinite
  refine ⟨hcode, ?_⟩
  rw [runIn_of_request {} request_generate rfl, Command.file, hjson, hstdout]
  dsimp only
  rw [report_generate, hrefused]
  rfl

end LuaConfig.CommandLine
