/-
What the arguments of the program ask for.

Arguments are read from left to right.  An option that takes a value has it in the same argument or
in the next one that is no option itself; a value is looked at when the next option or file comes.
After `--` every argument is a file.
-/
import LuaConfig.CommandLine.Options

namespace LuaConfig.CommandLine

/-- What is wrong with the arguments. -/
inductive UsageError where
  | unexpected (arg : String)
  | unexpectedValue (value option : String)
  | repeated (option : String)
  | noValue (option : String)
  | badValue (value option why : String)
  | noFile
  | unknownVerb (name : String)
  | noVerb
  deriving DecidableEq, Repr

/-- What messages call the file. -/
def fileShown : String := "<FILE>"

namespace UsageError

/-- The text of an error. -/
def message : UsageError → String
  | unexpected arg => "unexpected argument '" ++ arg ++ "' found"
  | unexpectedValue value option =>
    "unexpected value '" ++ value ++ "' for '" ++ option ++ "' found; no more were expected"
  | repeated option => "the argument '" ++ option ++ "' cannot be used multiple times"
  | noValue option => "a value is required for '" ++ option ++ "' but none was supplied"
  | badValue value option why => "invalid value '" ++ value ++ "' for '" ++ option ++ "': " ++ why
  | noFile => "the following required arguments were not provided:\n  " ++ fileShown
  | unknownVerb name => "unrecognized subcommand '" ++ name ++ "'"
  | noVerb => "'" ++ program ++ "' requires a subcommand but one was not provided"

end UsageError

/-- A job, with all that it needs to know. -/
inductive Command where
  | modInfo (file locale : String) (folderName output : Option String)
  | level (file : String) (output : Option String)
  | generate (file : String) (dialect : Dialect) (output : Option String)
  | players (file : String)
  deriving DecidableEq, Repr

/-- What is asked for. -/
inductive Request where
  | run (verbose : Bool) (command : Command)
  | help (verb : Option Verb)
  | version
  /-- Nothing has been asked for. -/
  | nothing
  deriving DecidableEq, Repr

/-- Why the reading of arguments stops before their end. -/
inductive Stop where
  | usage (e : UsageError)
  | answer (r : Request)

/-- What has been read of the arguments of a verb. -/
structure Draft where
  file : Option String := none
  values : List (Switch × String) := []
  verbose : Bool := false
  /-- A value that has not been looked at yet, or an option that lacks one; the file has no
  option. -/
  pending : Option (Option Switch × Option String) := none

namespace Draft

/-- Is an option waiting for its value? -/
def isWaiting (d : Draft) : Bool :=
  match d.pending with
  | some (_, none) => true
  | _ => false

/-- Has a file been named? -/
def hasFile (d : Draft) : Bool :=
  d.file.isSome || d.pending.any fun (s, _) => s.isNone

/-- Looks at the value of an option. -/
def setValue (d : Draft) (s : Switch) (text : String) : Except Stop Draft :=
  if d.values.any (·.1 = s) then .error (.usage (.repeated s.shown))
  else
    let done : Draft := { d with values := d.values ++ [(s, text)] }
    match s.value with
    | some (_, .path) => if text.isEmpty then .error (.usage (.noValue s.shown)) else .ok done
    | some (_, .dialect) =>
      if (Dialect.ofName? text).isSome then .ok done
      else .error (.usage (.badValue text s.shown (Dialect.unknownMessage text)))
    | _ => .ok done

/-- Looks at the value that has not been looked at. -/
def settle (d : Draft) : Except Stop Draft :=
  let d' : Draft := { d with pending := none }
  match d.pending with
  | none => .ok d'
  | some (none, text) =>
    let text := text.getD ""
    if text.isEmpty then .error (.usage (.noValue fileShown)) else .ok { d' with file := some text }
  | some (some s, none) => .error (.usage (.noValue s.shown))
  | some (some s, some text) => d'.setValue s text

/-- Takes an option that has no value. -/
def setFlag (d : Draft) (verb : Option Verb) (s : Switch) : Except Stop Draft := do
  let d ← d.settle
  if s = .help then .error (.answer (.help verb))
  else if s = .version then .error (.answer .version)
  else if d.verbose then .error (.usage (.repeated s.shown))
  else .ok { d with verbose := true }

/-- Takes an option with the value that is attached to it, if one is. -/
def setOption (d : Draft) (s : Switch) (attached : Option String) : Except Stop Draft := do
  let d ← d.settle
  match attached with
  | some text => d.setValue s text
  | none => .ok { d with pending := some (some s, none) }

/-- Reads an argument that begins with two hyphens, which are left out. -/
def readLong (d : Draft) (verb : Option Verb) (switches : List Switch) (arg : String) :
    Except Stop Draft :=
  let name := String.ofList (arg.toList.takeWhile (· ≠ '='))
  let attached := match arg.toList.dropWhile (· ≠ '=') with
    | _ :: text => some (String.ofList text)
    | [] => none
  match switches.find? (·.long == name) with
  | none => .error (.usage (.unexpected ("--" ++ name)))
  | some s =>
    match s.value, attached with
    | some _, attached => d.setOption s attached
    | none, some text => .error (.usage (.unexpectedValue text s.shown))
    | none, none => d.setFlag verb s

/-- Reads an argument that begins with one hyphen, which is left out. -/
def readShort (verb : Option Verb) (switches : List Switch) :
    List Char → Draft → Except Stop Draft
  | [], d => .ok d
  | c :: rest, d =>
    match switches.find? (·.short = some c) with
    | none => .error (.usage (.unexpected (String.ofList ['-', c])))
    | some s =>
      match s.value, rest with
      | none, _ => do readShort verb switches rest (← d.setFlag verb s)
      | some _, [] => d.setOption s none
      | some _, '=' :: text => d.setOption s (some (String.ofList text))
      | some _, text => d.setOption s (some (String.ofList text))

/-- Reads an argument that is an option, if it is one. -/
def readSwitch? (d : Draft) (verb : Option Verb) (switches : List Switch) (arg : String) :
    Option (Except Stop Draft) :=
  match arg.toList with
  | '-' :: '-' :: text => some (d.readLong verb switches (String.ofList text))
  | '-' :: c :: text => some (readShort verb switches (c :: text) d)
  | _ => none

/-- Reads an argument that is no option. -/
def readFile (d : Draft) (arg : String) : Except Stop Draft :=
  if d.hasFile then .error (.usage (.unexpected arg))
  else do
    let d ← d.settle
    return { d with pending := some (none, some arg) }

/-- Reads the arguments of a verb; after `--` they are `plain`. -/
def read (verb : Verb) : (plain : Bool) → List String → Draft → Except Stop Draft
  | _, [], d => d.settle
  | true, arg :: rest, d => do read verb true rest (← d.readFile arg)
  | false, arg :: rest, d =>
    if arg = "--" then read verb true rest d
    else
      match d.readSwitch? verb verb.switches arg, d.pending with
      | some next, _ => do read verb false rest (← next)
      | none, some (some s, none) => read verb false rest { d with pending := some (some s, some arg) }
      | none, _ => do read verb false rest (← d.readFile arg)

/-- The value of an option. -/
def value? (d : Draft) (s : Switch) : Option String := d.values.lookup s

/-- The job that has been asked for. -/
def command (d : Draft) (verb : Verb) : Except Stop Command :=
  match d.file with
  | none => .error (.usage .noFile)
  | some file => .ok (match verb with
    | .modInfo =>
      .modInfo file ((d.value? .locale).getD "") (d.value? .folderName) (d.value? .output)
    | .level => .level file (d.value? .output)
    | .generate =>
      .generate file (((d.value? .dialect).bind Dialect.ofName?).getD .standard) (d.value? .output)
    | .players => .players file)

end Draft

namespace Request

/-- The options that stand before a verb. -/
def switches : List Switch := [.verbose, .help, .version]

/-- Reads what follows the word `help`. -/
def readHelp : List String → Request ⊕ UsageError
  | [] => .inl (.help none)
  | ["help"] => .inl (.help none)
  | "help" :: name :: _ => .inr (.unknownVerb name)
  | name :: rest =>
    match Verb.ofName? name, rest with
    | none, _ => .inr (.unknownVerb name)
    | some verb, [] => .inl (.help verb)
    | some _, other :: _ => .inr (.unknownVerb other)

/-- Reads all arguments. -/
def read : List String → Draft → Except Stop Request
  | [], d => if d.verbose then .error (.usage .noVerb) else .ok .nothing
  | "--" :: rest, d =>
    match rest with
    | [] => if d.verbose then .error (.usage .noVerb) else .ok .nothing
    | arg :: _ =>
      if arg = "help" ∨ (Verb.ofName? arg).isSome then .error (.usage (.unexpected arg))
      else .error (.usage (.unknownVerb arg))
  | arg :: rest, d =>
    match Verb.ofName? arg, d.readSwitch? none switches arg with
    | some verb, _ => do
      let inner ← Draft.read verb false rest {}
      return .run (d.verbose || inner.verbose) (← inner.command verb)
    | none, some next => do read rest (← next)
    | none, none =>
      if arg = "help" then
        match readHelp rest with
        | .inl r => .ok r
        | .inr e => .error (.usage e)
      else .error (.usage (.unknownVerb arg))

/-- The request that arguments make. -/
def ofArguments (args : List String) : Except UsageError Request :=
  match read args {} with
  | .ok r => .ok r
  | .error (.answer r) => .ok r
  | .error (.usage e) => .error e

end Request

end LuaConfig.CommandLine
