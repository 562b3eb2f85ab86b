/-
What values are taken for outside scripts.

Each projection is defined for some values only.  Numbers have a text, and strings that are
numerals have a number; booleans are never taken for anything else.
-/
import LuaConfig.Decimal.Reading
import LuaConfig.Lua.Value
import LuaConfig.Record.Scalar
import LuaConfig.Text.Blank

namespace LuaConfig.Lua.Value

-- powers are the built-in ones
attribute [local instance (2000)] instPowNat

/-- The text of a string or of a number. -/
def text? : Value → Option String
  | str s => some s.text
  | int n => some (toString n.toInt)
  | float x => some (Decimal.plain x)
  | _ => none

def flag? : Value → Option Bool
  | bool b => some b
  | _ => none

/-- The characters of a string that is valid text, without the white space at its ends. -/
def trimmed? (s : Octets) : Option (List Char) :=
  (String.fromUTF8? s).map fun text => Text.trim text.toList

/-- The double of a number or of a string that is a numeral. -/
def double? : Value → Option Float
  | int n => some (toFloat n)
  | float x => some x
  | str s => (trimmed? s).bind Decimal.float?
  | _ => none

/-- The 64-bit integer nearest to an integer. -/
def clip (n : Int) : Int64 :=
  if n < -(2 ^ (63 : Nat)) then Int64.minValue
  else if 2 ^ (63 : Nat) ≤ n then Int64.maxValue
  else Int64.ofInt n

/-- A finite double without its fraction. -/
def truncate? (x : Float) : Option Int64 :=
  (Decimal.Binary64.ofFloat x).truncate?.map clip

/-- The 64-bit integer that a text stands for, as it is written or without the fraction of a
double. -/
def wholeText? (text : List Char) : Option Int64 :=
  match Decimal.int? text with
  | some n =>
    if -(2 ^ (63 : Nat)) ≤ n ∧ n < 2 ^ (63 : Nat) then some (Int64.ofInt n)
    else (Decimal.float? text).bind truncate?
  | none => (Decimal.float? text).bind truncate?

/-- The integer of a number or of a string that is a numeral. -/
def whole? : Value → Option Int64
  | int n => some n
  | float x => truncate? x
  | str s => (trimmed? s).bind wholeText?
  | _ => none

/-- The scalar that a value is, if it is one. -/
def scalar? : Value → Option Scalar
  | bool b => some (.bool b)
  | int n => some (.number (toFloat n))
  | float x => some (.number x)
  | str s => some (.string s.text)
  | _ => none

/-- The kind of a value as it is reported outside scripts. -/
def kindName : Value → String
  | nil => "nil"
  | bool _ => "boolean"
  | int _ => "integer"
  | float _ => "number"
  | str _ => "string"
  | table _ => "table"
  | func _ => "function"
  | builtin _ => "function"
  | failure _ => "error"

/-- The text of a value in a printed line. -/
def printed : Value → String
  | nil => "nil"
  | bool b => if b then "true" else "false"
  | v => v.text?.getD v.kindName

end LuaConfig.Lua.Value
