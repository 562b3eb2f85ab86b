/-
From the octets of a script to its tokens.

`scan` takes the first token off a text.  Comments and white space stand between tokens.  Lines are
counted from one and end with a line feed, a carriage return, or both.
-/
import LuaConfig.Lua.Token.Quoted

namespace LuaConfig.Lua

open Quoted (isLineEnd isPair)

namespace Bracketed

/-- The level of a long bracket whose opening square bracket has been read, and the text after the
second one. -/
def level? (level : Nat) : List UInt8 → Option (Nat × List UInt8)
  | b :: rest =>
    if b = 61 then level? (level + 1) rest
    else if b = 91 then some (level, rest)
    else none
  | [] => none

/-- Where in a long string the reading stands. -/
inductive Mode where
  | plain
  /-- Behind the line end `b`, which an octet of the other kind belongs to. -/
  | lineEnd (b : UInt8)
  /-- Behind a closing bracket and `seen` equals signs. -/
  | closing (seen : Nat)

/-- An octet where anything may follow. -/
def stepPlain (b : UInt8) (out : Octets) (line : Nat) : Mode × Octets × Nat :=
  if b = 93 then (.closing 0, out, line)
  else if isLineEnd b then (.lineEnd b, out.push 10, line + 1)
  else (.plain, out.push b, line)

/-- Reads a long string to its end; `out` is what it holds so far. -/
def scan (level : Nat) (mode : Mode) (out : Octets) (line : Nat) : List UInt8 → Scan
  | [] => ⟨.malformed, line, []⟩
  | b :: rest =>
    match mode with
    | .plain =>
      let (mode, out, line) := stepPlain b out line
      scan level mode out line rest
    | .lineEnd a =>
      if isPair a b then scan level .plain out line rest
      else
        let (mode, out, line) := stepPlain b out line
        scan level mode out line rest
    | .closing seen =>
      if b = 93 ∧ seen = level then ⟨.string out, line, rest⟩
      else if b = 61 then scan level (.closing (seen + 1)) out line rest
      else
        let out := Quoted.append (out.push 93) (List.replicate seen 61)
        let (mode, out, line) := stepPlain b out line
        scan level mode out line rest

/-- Reads a long string behind its opening bracket.  A line end at its head is left out. -/
def scanOpened (level line : Nat) : List UInt8 → Scan
  | b :: rest =>
    if isLineEnd b then scan level (.lineEnd b) .empty (line + 1) rest
    else scan level .plain .empty line (b :: rest)
  | [] => ⟨.malformed, line, []⟩

end Bracketed

namespace Token

/-- The text from the end of the line on. -/
def skipLine : List UInt8 → List UInt8
  | [] => []
  | b :: rest => if isLineEnd b then b :: rest else skipLine rest

/-- The octets of a numeral at the head of a text: digits, hexadecimal or not, points, and
exponents with their signs.  `mark` tells the letter of an exponent. -/
def numeralOctets (mark : UInt8 → Bool) : List UInt8 → List UInt8
  | [] => []
  | b :: rest =>
    if mark b then
      match rest with
      | c :: after =>
        if c = 43 ∨ c = 45 then b :: c :: numeralOctets mark after
        else b :: numeralOctets mark (c :: after)
      | [] => [b]
    else if Octets.isHexDigit b ∨ b = 46 then b :: numeralOctets mark rest
    else []

/-- Is this the letter of a decimal exponent? -/
def isDecimalMark (b : UInt8) : Bool := b = 69 ∨ b = 101

/-- Is this the letter of a binary exponent? -/
def isBinaryMark (b : UInt8) : Bool := b = 80 ∨ b = 112

/-- The octets of a numeral, a letter that touches it included. -/
def numeral (text : List UInt8) : List UInt8 :=
  let body := match text with
    | a :: x :: rest =>
      if a = 48 ∧ (x = 88 ∨ x = 120) then a :: x :: numeralOctets isBinaryMark rest
      else numeralOctets isDecimalMark text
    | text => numeralOctets isDecimalMark text
  match text.drop body.length with
  | b :: _ => if Octets.isNameStart b then body ++ [b] else body
  | [] => body

def scanNumber (line : Nat) (text : List UInt8) : Scan :=
  let octets := numeral text
  let rest := text.drop octets.length
  match Numeral.ofChars? (Numeral.chars octets) with
  | some n => ⟨.number n, line, rest⟩
  | none => ⟨.malformed, line, rest⟩

/-- A name or a reserved word. -/
def scanWord (line : Nat) (text : List UInt8) : Scan :=
  let octets := text.takeWhile Octets.isNameRest
  let rest := text.dropWhile Octets.isNameRest
  match Keyword.ofString? (String.ofList (Numeral.chars octets)) with
  | some k => ⟨.keyword k, line, rest⟩
  | none => ⟨.name (Octets.ofList octets), line, rest⟩

def scanSymbol (line : Nat) (text : List UInt8) : Scan :=
  match Symbol.scan? text with
  | some (sign, rest) => ⟨.symbol sign, line, rest⟩
  | none => ⟨.malformed, line, text.drop 1⟩

/-- A token that begins with the first octet of a text. -/
def scanHere (line : Nat) (b : UInt8) (rest : List UInt8) : Scan :=
  if Octets.isNameStart b then scanWord line (b :: rest)
  else if Octets.isDigit b then scanNumber line (b :: rest)
  else if b = 34 ∨ b = 39 then Quoted.scan b .plain .empty line rest
  else if b = 91 then
    match Bracketed.level? 0 rest with
    | some (level, rest) => Bracketed.scanOpened level line rest
    | none => if rest.head? = some 61 then ⟨.malformed, line, rest⟩ else scanSymbol line (b :: rest)
  else if b = 46 ∧ (rest.head?.any Octets.isDigit) then scanNumber line (b :: rest)
  else scanSymbol line (b :: rest)

/-- The first token of a text; each round passes over one octet of white space or one comment. -/
def scan : (fuel line : Nat) → List UInt8 → Scan
  | 0, line, text => ⟨.malformed, line, text⟩
  | _ + 1, line, [] => ⟨.done, line, []⟩
  | fuel + 1, line, b :: rest =>
    if isLineEnd b then
      match rest with
      | c :: after => if isPair b c then scan fuel (line + 1) after else scan fuel (line + 1) rest
      | [] => scan fuel (line + 1) rest
    else if Octets.isSpace b then scan fuel line rest
    else if b = 45 ∧ rest.head? = some 45 then
      match rest.drop 1 with
      | c :: after =>
        match if c = 91 then Bracketed.level? 0 after else none with
        | some (level, opened) =>
          let comment := Bracketed.scanOpened level line opened
          match comment.token with
          | .string _ => scan fuel comment.line comment.rest
          | _ => ⟨.malformed, comment.line, []⟩
        | none => scan fuel line (skipLine (c :: after))
      | [] => ⟨.done, line, []⟩
    else scanHere line b rest

/-- The tokens of a text.  Nothing comes after the end of the text or after what is no token. -/
def listFrom : (fuel line : Nat) → List UInt8 → List Lexeme
  | 0, line, _ => [⟨.malformed, line⟩]
  | fuel + 1, line, text =>
    let first := scan (fuel + 1) line text
    match first.token with
    | .done => [⟨.done, first.line⟩]
    | .malformed => [⟨.malformed, first.line⟩]
    | token => ⟨token, first.line⟩ :: listFrom fuel first.line first.rest

/-- The tokens of a script. -/
def list (source : Octets) : List Lexeme :=
  let text := source.toList
  listFrom (text.length + 1) 1 text

end Token

end LuaConfig.Lua
