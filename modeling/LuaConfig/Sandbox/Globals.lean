/-
What a script finds when it begins to run.

The globals hold the base functions, the libraries on strings, tables and numbers, and three names
of their own: the folder, the language, and the function that chooses translations into it.
-/
import LuaConfig.Lua.Store
import LuaConfig.Sandbox.Options

namespace LuaConfig

open Lua

namespace Sandbox

/-- The octets that are in use before a script runs. -/
def preparedSize : Nat := 20000

/-- A store with nothing in it but the empty table of globals. -/
def emptyStore (choices : Choices) : Store where
  tables := #[{ walk := choices.walk 0 }]
  functions := #[]
  cells := #[]
  dumps := #[]
  slots := #[]
  globals := 0
  stringMetatable := 0
  spent := 0
  allocated := 0
  prints := []
  random := Random.ofSeed choices.seed
  choices := choices
  collector := {}

/-- The table with the given fields. -/
def tableOf (fields : List (String × Value)) : Table :=
  fields.foldl (fun t (name, v) => t.setField name v) {}

/-- The fields of `math` that are no functions. -/
def mathConstants : List (String × Value) :=
  [("pi", .float (Float.ofBits 0x400921FB54442D18)),
   ("huge", .float (Float.ofBits 0x7FF0000000000000)),
   ("maxinteger", .int Int64.maxValue),
   ("mininteger", .int Int64.minValue)]

/-- The fields of a library. -/
def libraryFields (name : String) (functions : List (String × Builtin)) : List (String × Value) :=
  let functions := functions.map fun (name, f) => (name, Value.builtin f)
  if name = "math" then functions ++ mathConstants else functions

/-- Puts the libraries into the store. -/
def addLibraries (σ : Store) : List (String × Value) × Store :=
  Builtin.libraries.foldl (fun (fields, σ) (name, functions) =>
    let (v, σ) := σ.newTable (tableOf (libraryFields name functions))
    (fields ++ [(name, v)], σ)) ([], σ)

/-- How strings behave: they find the functions on strings, and numerals take part in
arithmetic. -/
def stringBehaviour (functions : Value) : Table :=
  let arithmetic : List Arithmetic := [.add, .sub, .mul, .mod, .pow, .div, .idiv, .unm]
  tableOf (("__index", functions) ::
    arithmetic.map fun op => (op.event, Value.builtin (.stringArithmetic op)))

/-- The key of the folder's name among the globals. -/
def folderNameKey : String := "folder_name"

/-- The key of the language among the globals. -/
def localeKey : String := "locale"

/-- The key of the function that chooses translations. -/
def translationKey : String := "ChooseTranslationTable"

/-- What a script is told by the options. -/
def optionFields (options : SandboxOptions) : List (String × Value) :=
  [(folderNameKey, .ofString options.folderName),
   (localeKey, .ofString options.locale),
   (translationKey, .builtin (.chooseTranslation (Octets.ofString options.locale)))]

/-- The store of a script that has not begun to run. -/
def prepare (options : SandboxOptions) (choices : Choices) : Store :=
  let (libraries, σ) := addLibraries (emptyStore choices)
  let functions := (libraries.lookup "string").getD .nil
  let (behaviour, σ) := σ.newTable (stringBehaviour functions)
  let globals := tableOf <|
    [("_G", .table σ.globals), ("_VERSION", .ofString "Lua 5.4")] ++
      Builtin.globals.map (fun (name, f) => (name, Value.builtin f)) ++ libraries ++
      optionFields options
  let σ := σ.modifyTable σ.globals fun t => { globals with walk := t.walk }
  let ref := match behaviour with
    | .table ref => ref
    | _ => 0
  { σ with stringMetatable := ref, allocated := preparedSize }

end Sandbox

end LuaConfig
