/-
The tokens of scripts.
-/
import LuaConfig.Lua.Keyword
import LuaConfig.Lua.Numeral

namespace LuaConfig.Lua

-- the comparison of octets is the built-in one
attribute [local instance (2000)] ByteArray.instDecidableEq

/-- The signs of a script. -/
inductive Symbol where
  | plus | minus | star | slash | doubleSlash | percent | caret | hash | ampersand | tilde | pipe
  | shiftLeft | shiftRight | equal | notEqual | lessEqual | greaterEqual | less | greater | assign
  | openParen | closeParen | openBrace | closeBrace | openBracket | closeBracket | doubleColon
  | semicolon | colon | comma | dot | concat | ellipsis
  deriving DecidableEq, Repr

namespace Symbol

/-- Every sign beside its spelling.  Of two signs that begin alike the longer one comes first. -/
def table : List (String × Symbol) :=
  [("...", ellipsis), ("..", concat), (".", dot), ("//", doubleSlash), ("/", slash),
   ("<<", shiftLeft), ("<=", lessEqual), ("<", less), (">>", shiftRight), (">=", greaterEqual),
   (">", greater), ("==", equal), ("=", assign), ("~=", notEqual), ("~", tilde),
   ("::", doubleColon), (":", colon), ("+", plus), ("-", minus), ("*", star), ("%", percent),
   ("^", caret), ("#", hash), ("&", ampersand), ("|", pipe), ("(", openParen),
   (")", closeParen), ("\x7b", openBrace), ("\x7d", closeBrace), ("[", openBracket),
   ("]", closeBracket), (";", semicolon), (",", comma)]

/-- The spellings as octets. -/
def spellings : List (List UInt8 × Symbol) :=
  table.map fun (text, symbol) => (text.toList.map fun c => UInt8.ofNat c.toNat, symbol)

/-- The longest sign at the head of a text, and the rest. -/
def scan? (text : List UInt8) : Option (Symbol × List UInt8) :=
  spellings.findSome? fun (spelling, symbol) =>
    if spelling.isPrefixOf text then some (symbol, text.drop spelling.length) else none

end Symbol

inductive Token where
  | name (s : Octets)
  | keyword (k : Keyword)
  | string (s : Octets)
  | number (n : Number)
  | symbol (s : Symbol)
  /-- The end of the text. -/
  | done
  /-- What is no token. -/
  | malformed
  deriving DecidableEq

/-- A token with the line on which it ends. -/
structure Lexeme where
  token : Token
  line : Nat
  deriving DecidableEq

/-- A token at the head of a text, the line on which it ends, and the rest of the text. -/
structure Scan where
  token : Token
  line : Nat
  rest : List UInt8

end LuaConfig.Lua
