/-
The reserved words of Lua, and the characters of names.
-/
namespace LuaConfig.Lua

inductive Keyword where
  | kwAnd | kwBreak | kwDo | kwElse | kwElseif | kwEnd | kwFalse | kwFor | kwFunction | kwGoto | kwIf
  | kwIn | kwLocal | kwNil | kwNot | kwOr | kwRepeat | kwReturn | kwThen | kwTrue | kwUntil | kwWhile
  deriving DecidableEq, Repr

namespace Keyword

/-- Every reserved word beside its spelling. -/
def table : List (String × Keyword) :=
  [("and", kwAnd), ("break", kwBreak), ("do", kwDo), ("else", kwElse), ("elseif", kwElseif),
   ("end", kwEnd), ("false", kwFalse), ("for", kwFor), ("function", kwFunction), ("goto", kwGoto),
   ("if", kwIf), ("in", kwIn), ("local", kwLocal), ("nil", kwNil), ("not", kwNot), ("or", kwOr),
   ("repeat", kwRepeat), ("return", kwReturn), ("then", kwThen), ("true", kwTrue),
   ("until", kwUntil), ("while", kwWhile)]

/-- The reserved word that a name spells, if it spells one. -/
def ofString? (name : String) : Option Keyword :=
  table.lookup name

end Keyword

/-- May a name begin with this character? -/
def isNameStart (c : Char) : Bool :=
  ('a' ≤ c ∧ c ≤ 'z') ∨ ('A' ≤ c ∧ c ≤ 'Z') ∨ c = '_'

/-- May a name go on with this character? -/
def isNameRest (c : Char) : Bool :=
  isNameStart c ∨ ('0' ≤ c ∧ c ≤ '9')

end LuaConfig.Lua
