/-
Scalars: the values that an option or an override may take.
-/
import LuaConfig.Decimal.Plain

namespace LuaConfig

/-- A switch, a number or a text. -/
inductive Scalar where
  | bool (b : Bool)
  | number (x : Float)
  | string (s : String)
  deriving DecidableEq

namespace Scalar

/-- The text shown for a scalar; numbers are plain decimals. -/
def display : Scalar → String
  | bool b => if b then "true" else "false"
  | number x => Decimal.plain x
  | string s => s

/-- The switch, if it is one. -/
def bool? : Scalar → Option Bool
  | bool b => some b
  | _ => none

/-- The number, if it is one. -/
def number? : Scalar → Option Float
  | number x => some x
  | _ => none

/-- The text, if it is one. -/
def string? : Scalar → Option String
  | string s => some s
  | _ => none

end Scalar

end LuaConfig
