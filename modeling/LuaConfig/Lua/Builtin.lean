/-
The functions that scripts find in their globals.

They are plain names here; what they do is said by the modules under `Lua/Library`.
-/
import LuaConfig.Lua.Octets

namespace LuaConfig.Lua

-- the comparison of octets is the built-in one
attribute [local instance (2000)] ByteArray.instDecidableEq

/-- Functions that stand in the globals themselves. -/
inductive BaseFunction where
  | assert | collectgarbage | error | getmetatable | ipairs | load | next | pairs | pcall | print
  | rawequal | rawget | rawlen | rawset | select | setmetatable | tonumber | tostring | type | warn
  | xpcall
  deriving DecidableEq, Repr

/-- Functions on strings. -/
inductive StringFunction where
  | byte | char | dump | find | format | gmatch | gsub | len | lower | match | pack | packsize
  | rep | reverse | sub | unpack | upper
  deriving DecidableEq, Repr

/-- Functions on tables. -/
inductive TableFunction where
  | concat | insert | move | pack | remove | sort | unpack
  deriving DecidableEq, Repr

/-- Functions on numbers. -/
inductive MathFunction where
  | abs | acos | asin | atan | ceil | cos | cosh | deg | exp | floor | fmod | frexp | ldexp | log
  | log10 | max | min | modf | pow | rad | random | randomseed | sin | sinh | sqrt | tan | tanh
  | tointeger | type | ult
  deriving DecidableEq, Repr

/-- Arithmetic that strings take part in. -/
inductive Arithmetic where
  | add | sub | mul | mod | pow | div | idiv | unm
  deriving DecidableEq, Repr

/-- A function that is no script's. -/
inductive Builtin where
  | base (f : BaseFunction)
  | string (f : StringFunction)
  | table (f : TableFunction)
  | math (f : MathFunction)
  /-- Arithmetic on strings that are numerals. -/
  | stringArithmetic (op : Arithmetic)
  /-- Walks a list by position. -/
  | nextPosition
  /-- Chooses the translation of a table into the given language. -/
  | chooseTranslation (locale : Octets)
  deriving DecidableEq

namespace BaseFunction

/-- Every function with the name under which scripts find it. -/
def table : List (String × BaseFunction) :=
  [("assert", assert), ("collectgarbage", collectgarbage), ("error", error),
   ("getmetatable", getmetatable), ("ipairs", ipairs), ("load", load), ("next", next),
   ("pairs", pairs), ("pcall", pcall), ("print", print), ("rawequal", rawequal),
   ("rawget", rawget), ("rawlen", rawlen), ("rawset", rawset), ("select", select),
   ("setmetatable", setmetatable), ("tonumber", tonumber), ("tostring", tostring),
   ("type", type), ("warn", warn), ("xpcall", xpcall)]

end BaseFunction

namespace StringFunction

def table : List (String × StringFunction) :=
  [("byte", byte), ("char", char), ("dump", dump), ("find", find), ("format", format),
   ("gmatch", gmatch), ("gsub", gsub), ("len", len), ("lower", lower), ("match", «match»),
   ("pack", pack), ("packsize", packsize), ("rep", rep), ("reverse", reverse), ("sub", sub),
   ("unpack", unpack), ("upper", upper)]

end StringFunction

namespace TableFunction

def table : List (String × TableFunction) :=
  [("concat", concat), ("insert", insert), ("move", move), ("pack", pack), ("remove", remove),
   ("sort", sort), ("unpack", unpack)]

end TableFunction

namespace MathFunction

def table : List (String × MathFunction) :=
  [("abs", abs), ("acos", acos), ("asin", asin), ("atan", atan), ("ceil", ceil), ("cos", cos),
   ("cosh", cosh), ("deg", deg), ("exp", exp), ("floor", floor), ("fmod", fmod),
   ("frexp", frexp), ("ldexp", ldexp), ("log", log), ("log10", log10), ("max", max),
   ("min", min), ("modf", modf), ("pow", pow), ("rad", rad), ("random", random),
   ("randomseed", randomseed), ("sin", sin), ("sinh", sinh), ("sqrt", sqrt), ("tan", tan),
   ("tanh", tanh), ("tointeger", tointeger), ("type", type), ("ult", ult)]

end MathFunction

/-- The key of the metamethod for an operation. -/
def Arithmetic.event : Arithmetic → String
  | add => "__add"
  | sub => "__sub"
  | mul => "__mul"
  | mod => "__mod"
  | pow => "__pow"
  | div => "__div"
  | idiv => "__idiv"
  | unm => "__unm"

/-- The libraries that stand in tables of their own. -/
def Builtin.libraries : List (String × List (String × Builtin)) :=
  [("string", StringFunction.table.map fun (name, f) => (name, .string f)),
   ("table", TableFunction.table.map fun (name, f) => (name, .table f)),
   ("math", MathFunction.table.map fun (name, f) => (name, .math f))]

/-- The functions that stand in the globals. -/
def Builtin.globals : List (String × Builtin) :=
  BaseFunction.table.map fun (name, f) => (name, .base f)

end LuaConfig.Lua
