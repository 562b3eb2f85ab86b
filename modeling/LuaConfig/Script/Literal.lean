/-
Lua expressions that stand for given values.

Each text is a complete expression: a quoted string is closed and holds no control character of
its own, a number is an optional minus sign before a numeral without exponent, and the numbers that
have no numeral are written as quotients.
-/
import LuaConfig.Lua.Keyword
import LuaConfig.Record.Scalar

namespace LuaConfig.Script

/-- A control character of ASCII. -/
def isControl (c : Char) : Bool :=
  c.toNat < 32 ∨ c.toNat = 127

/-- The decimal digit `n`, for `n < 10`. -/
def digitChar (n : Nat) : Char :=
  Char.ofNat ('0'.toNat + n)

/-- A character inside a quoted string.  Control characters without a letter of their own are
written with three decimal digits, so that a digit after them is not read as part of them. -/
def escape (c : Char) : List Char :=
  if c = '\\' then ['\\', '\\']
  else if c = '"' then ['\\', '"']
  else if c = '\n' then ['\\', 'n']
  else if c = '\r' then ['\\', 'r']
  else if c = '\t' then ['\\', 't']
  else if isControl c then
    let n := c.toNat
    ['\\', digitChar (n / 100), digitChar (n / 10 % 10), digitChar (n % 10)]
  else [c]

/-- A text in double quotes. -/
def quoted (text : String) : String :=
  String.ofList ('"' :: (text.toList.flatMap escape ++ ['"']))

/-- A switch. -/
def switch (b : Bool) : String :=
  if b then "true" else "false"

/-- A number. -/
def number (x : Float) : String :=
  match Decimal.Binary64.ofFloat x with
  | .nan => "0/0"
  | .infinite negative => Decimal.signed negative "1/0"
  | .finite .. => Decimal.plain x

/-- A scalar. -/
def scalar : Scalar → String
  | .bool b => switch b
  | .number x => number x
  | .string s => quoted s

/-- The words that are no bare keys. -/
def keywords : List String :=
  ["and", "break", "do", "else", "elseif", "end", "false", "for", "function", "goto", "if", "in",
   "local", "nil", "not", "or", "repeat", "return", "then", "true", "until", "while"]

/-- May a key stand bare? -/
def isIdentifier (name : String) : Bool :=
  match name.toList with
  | [] => false
  | c :: rest => Lua.isNameStart c && rest.all Lua.isNameRest && !keywords.contains name

/-- The key of a field in a table: a bare name where that can stand, else a quoted string in
brackets. -/
def key (name : String) : String :=
  if isIdentifier name then name else "[" ++ quoted name ++ "]"

end LuaConfig.Script
