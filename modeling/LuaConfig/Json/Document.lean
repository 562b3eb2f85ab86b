/-
JSON documents and their text.

`compact` writes a document without blanks, `pretty` with a line per element, two spaces for each
level of nesting.  Numbers are doubles, written with the shortest digits that read back, or
integers.
-/
import LuaConfig.Decimal.Plain

namespace LuaConfig

inductive Json where
  | null
  | bool (b : Bool)
  | integer (n : Int)
  | float (x : Float)
  | string (s : String)
  | array (items : List Json)
  | object (members : List (String × Json))

namespace Json

/-- A hexadecimal digit, for `n < 16`. -/
def hexDigit (n : Nat) : Char :=
  if n < 10 then Char.ofNat ('0'.toNat + n) else Char.ofNat ('a'.toNat + (n - 10))

/-- A character inside a string: only quotes, backslashes and control characters are escaped. -/
def escape (c : Char) : List Char :=
  if c = '"' then ['\\', '"']
  else if c = '\\' then ['\\', '\\']
  else if c = '\n' then ['\\', 'n']
  else if c = '\r' then ['\\', 'r']
  else if c = '\t' then ['\\', 't']
  else if c.toNat = 8 then ['\\', 'b']
  else if c.toNat = 12 then ['\\', 'f']
  else if c.toNat < 32 then
    ['\\', 'u', '0', '0', hexDigit (c.toNat / 16), hexDigit (c.toNat % 16)]
  else [c]

/-- A string in quotes. -/
def quoted (s : String) : String :=
  String.ofList ('"' :: (s.toList.flatMap escape ++ ['"']))

/-- A positive number in decimal.  It is written positionally where its leading digit stands for a
power of ten from `10 ^ -5` to `10 ^ 15`, and always shows that it is no integer, by a point or by
an exponent. -/
def decimalText (d : Decimal.Scaled) : String :=
  let digits := Nat.repr d.digits
  let lead : Int := d.exponent + digits.length - 1
  if -5 ≤ lead ∧ lead ≤ 15 then
    if 0 ≤ d.exponent then d.positional ++ ".0" else d.positional
  else
    let fraction := digits.toList.drop 1
    let point := if fraction.isEmpty then "" else "."
    let sign := if lead < 0 then "-" else "+"
    String.ofList (digits.toList.take 1) ++ point ++ String.ofList fraction ++ "e" ++ sign ++
      Nat.repr lead.natAbs

/-- A double; those that are no numbers, or infinite, become `null`.  Of two shortest decimals
equally near, the even one. -/
def floatText (x : Float) : String :=
  match Decimal.Binary64.ofFloat x with
  | .finite negative m q =>
    Decimal.signed negative (if m = 0 then "0.0" else decimalText (Decimal.shortest .even m q))
  | _ => "null"

/-- The text of a document that is neither array nor object. -/
def leafText : Json → String
  | bool b => if b then "true" else "false"
  | integer n => Int.repr n
  | float x => floatText x
  | string s => quoted s
  | _ => "null"

mutual

/-- A document without blanks, written after `out`. -/
def compactOnto (out : String) : Json → String
  | array items => compactItems (out ++ "[") "" items ++ "]"
  | object members => compactMembers (out ++ "\x7b") "" members ++ "\x7d"
  | leaf => out ++ leafText leaf

/-- Elements, the first after `separator` and the others after a comma. -/
def compactItems (out separator : String) : List Json → String
  | [] => out
  | item :: rest => compactItems (compactOnto (out ++ separator) item) "," rest

def compactMembers (out separator : String) : List (String × Json) → String
  | [] => out
  | (name, value) :: rest =>
    compactMembers (compactOnto (out ++ separator ++ quoted name ++ ":") value) "," rest

end

/-- The compact text of a document. -/
def compact (document : Json) : String :=
  compactOnto "" document

/-- The end of a line and the blanks of the next. -/
def newline (depth : Nat) : String :=
  "\n" ++ String.ofList (List.replicate (2 * depth) ' ')

mutual

/-- A document with a line per element, written after `out`. -/
def prettyOnto (out : String) (depth : Nat) : Json → String
  | array [] => out ++ "[]"
  | array items => prettyItems (out ++ "[") "" (depth + 1) items ++ newline depth ++ "]"
  | object [] => out ++ "\x7b\x7d"
  | object members =>
    prettyMembers (out ++ "\x7b") "" (depth + 1) members ++ newline depth ++ "\x7d"
  | leaf => out ++ leafText leaf

def prettyItems (out separator : String) (depth : Nat) : List Json → String
  | [] => out
  | item :: rest =>
    prettyItems (prettyOnto (out ++ separator ++ newline depth) depth item) "," depth rest

def prettyMembers (out separator : String) (depth : Nat) : List (String × Json) → String
  | [] => out
  | (name, value) :: rest =>
    prettyMembers
      (prettyOnto (out ++ separator ++ newline depth ++ quoted name ++ ": ") depth value) ","
      depth rest

end

/-- The pretty text of a document. -/
def pretty (document : Json) : String :=
  prettyOnto "" 0 document

end Json

end LuaConfig
