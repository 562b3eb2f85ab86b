/-
Reading JSON text.

A reader takes a value of one type off the head of a text and returns the rest; it reports the
first thing that is wrong in the order of the text.  What is wrong is malformed text, text that
ends too soon, or a well-formed value of another type (`Fault`).

Numbers are read into a significand of 64 bits and a power of ten, and a number with a fraction or
an exponent is their product in doubles: it is rounded at each of these steps.
-/
import LuaConfig.Decimal.Reading

namespace LuaConfig.Json

-- powers are the built-in ones
attribute [local instance (2000)] instPowNat

/-- Why no value could be read. -/
inductive Fault where
  | malformed
  | unfinished
  | mismatch
  deriving DecidableEq, Repr

/-- Takes a value off the head of a text. -/
abbrev Read (α : Type) : Type :=
  List Char → Except Fault (α × List Char)

/-- The white space of JSON. -/
def isBlank (c : Char) : Bool :=
  c = ' ' ∨ c = '\t' ∨ c = '\n' ∨ c = '\r'

/-- The text from its first character that is not blank. -/
def skipBlank (text : List Char) : List Char :=
  text.dropWhile isBlank

/-- The rest of a word whose first letter has been read. -/
def readWord : List Char → List Char → Except Fault (List Char)
  | [], text => .ok text
  | _ :: _, [] => .error .unfinished
  | w :: word, c :: text => if c = w then readWord word text else .error .malformed

/-! ### Strings -/

/-- The value of a hexadecimal digit. -/
def hexValue? (c : Char) : Option Nat :=
  if '0' ≤ c ∧ c ≤ '9' then some (c.toNat - '0'.toNat)
  else if 'a' ≤ c ∧ c ≤ 'f' then some (c.toNat - 'a'.toNat + 10)
  else if 'A' ≤ c ∧ c ≤ 'F' then some (c.toNat - 'A'.toNat + 10)
  else none

/-- Four hexadecimal digits.  The text has ended too soon if fewer than four octets are left. -/
def readHex4 (text : List Char) : Except Fault (Nat × List Char) :=
  match text with
  | a :: b :: c :: d :: rest =>
    match hexValue? a, hexValue? b, hexValue? c, hexValue? d with
    | some a, some b, some c, some d => .ok (((a * 16 + b) * 16 + c) * 16 + d, rest)
    | _, _, _, _ => .error .malformed
  | _ =>
    if text.foldl (fun size c => size + c.utf8Size) 0 < 4 then .error .unfinished
    else .error .malformed

/-- Is the number a unit of UTF-16 that opens, or closes, a pair? -/
def isHighSurrogate (n : Nat) : Bool := 0xD800 ≤ n ∧ n < 0xDC00

def isLowSurrogate (n : Nat) : Bool := 0xDC00 ≤ n ∧ n < 0xE000

/-- The second half of a pair of units, after the first. -/
def readLowSurrogate (high : Nat) : List Char → Except Fault (Char × List Char)
  | [] => .error .unfinished
  | c :: rest =>
    if c ≠ '\\' then .error .malformed
    else match rest with
      | [] => .error .unfinished
      | u :: rest =>
        if u ≠ 'u' then .error .malformed
        else do
          let (low, rest) ← readHex4 rest
          if isLowSurrogate low then
            .ok (Char.ofNat ((high - 0xD800) * 0x400 + (low - 0xDC00) + 0x10000), rest)
          else .error .malformed

/-- The character that an escape stands for, after its backslash. -/
def readEscape : List Char → Except Fault (Char × List Char)
  | [] => .error .unfinished
  | '"' :: rest => .ok ('"', rest)
  | '\\' :: rest => .ok ('\\', rest)
  | '/' :: rest => .ok ('/', rest)
  | 'b' :: rest => .ok (Char.ofNat 8, rest)
  | 'f' :: rest => .ok (Char.ofNat 12, rest)
  | 'n' :: rest => .ok ('\n', rest)
  | 'r' :: rest => .ok ('\r', rest)
  | 't' :: rest => .ok ('\t', rest)
  | 'u' :: rest => do
    let (n, rest) ← readHex4 rest
    if isLowSurrogate n then .error .malformed
    else if isHighSurrogate n then readLowSurrogate n rest
    else .ok (Char.ofNat n, rest)
  | _ => .error .malformed

/-- The characters of a string up to its closing quote, appended to `out`. -/
def readStringRest (out : String) : Nat → List Char → Except Fault (String × List Char)
  | 0, _ => .error .unfinished
  | _, [] => .error .unfinished
  | fuel + 1, c :: rest =>
    if c = '"' then .ok (out, rest)
    else if c = '\\' then
      match readEscape rest with
      | .ok (c, rest) => readStringRest (out.push c) fuel rest
      | .error fault => .error fault
    else if c.toNat < 32 then .error .malformed
    else readStringRest (out.push c) fuel rest

/-- A string after its opening quote.  Each step takes a character, so the text's length bounds
them. -/
def readString (text : List Char) : Except Fault (String × List Char) :=
  readStringRest "" (text.length + 1) text

/-! ### Numbers -/

inductive Number where
  | integer (n : Int)
  | float (x : Float)

/-- The largest significand. -/
def maxSignificand : Nat := 2 ^ (64 : Nat) - 1

/-- Digits before the point: once the significand is full they only count. -/
def readWhole (significand dropped : Nat) : List Char → Nat × Nat × List Char
  | [] => (significand, dropped, [])
  | c :: rest =>
    match Decimal.digit? c with
    | none => (significand, dropped, c :: rest)
    | some d =>
      let next := significand * 10 + d
      if dropped = 0 ∧ next ≤ maxSignificand then readWhole next 0 rest
      else readWhole significand (dropped + 1) rest

/-- Digits after the point: once the significand is full they are passed over. -/
def readFraction (significand places : Nat) (full : Bool) : List Char → Nat × Nat × List Char
  | [] => (significand, places, [])
  | c :: rest =>
    match Decimal.digit? c with
    | none => (significand, places, c :: rest)
    | some d =>
      let next := significand * 10 + d
      if !full && next ≤ maxSignificand then readFraction next (places + 1) false rest
      else readFraction significand places true rest

/-- The exponent after its letter. -/
def readExponent (text : List Char) : Except Fault (Int × List Char) :=
  let (negative, digits) := Decimal.scanSign text
  let (n, count, rest) := Decimal.scanDigits 0 0 digits
  if count = 0 then .error (if digits.isEmpty then .unfinished else .malformed)
  else .ok (if negative then -(n : Int) else n, rest)

/-- `x · 10 ^ exponent` in doubles, dividing by powers that are too large in pieces; nothing where
the result is out of range. -/
def scale? : Nat → Float → Int → Option Float
  | 0, x, _ => some x
  | steps + 1, x, exponent =>
    if exponent.natAbs ≤ 308 then
      let power := Decimal.ofDecimal false 1 exponent.natAbs
      if 0 ≤ exponent then
        if (x * power).isInf then none else some (x * power)
      else some (x / power)
    else if x == 0 then some x
    else if 0 ≤ exponent then none
    else scale? steps (x / Decimal.ofDecimal false 1 308) (exponent + 308)

/-- The double of a significand and an exponent. -/
def ofParts (negative : Bool) (significand : Nat) (exponent : Int) :
    Except Fault Number :=
  match scale? 3 (Decimal.ofInt significand) exponent with
  | some x => .ok (.float (if negative then -x else x))
  | none => .error .malformed

/-- An integer stays one if it fits 64 bits, and negative zero is a double. -/
def ofWhole (negative : Bool) (significand : Nat) : Number :=
  if !negative then .integer significand
  else if significand = 0 ∨ 2 ^ (63 : Nat) < significand then .float (-(Decimal.ofInt significand))
  else .integer (-(significand : Int))

/-- What follows the digits before the point. -/
def readAfterWhole (negative : Bool) (significand dropped : Nat) :
    List Char → Except Fault (Number × List Char)
  | [] => do
    .ok (← if dropped = 0 then .ok (ofWhole negative significand)
      else ofParts negative significand dropped, [])
  | c :: rest =>
    if c = '.' then
      let (significand, places, rest') := readFraction significand 0 false rest
      match rest with
      | [] => .error .unfinished
      | d :: _ =>
        if (Decimal.digit? d).isNone then .error .malformed
        else
          let exponent : Int := (dropped : Int) - places
          match rest' with
          | e :: after =>
            if e = 'e' ∨ e = 'E' then do
              let (n, after) ← readExponent after
              .ok (← ofParts negative significand (exponent + n), after)
            else do .ok (← ofParts negative significand exponent, rest')
          | [] => do .ok (← ofParts negative significand exponent, [])
    else if c = 'e' ∨ c = 'E' then do
      let (n, after) ← readExponent rest
      .ok (← ofParts negative significand (dropped + n), after)
    else do
      .ok (← if dropped = 0 then .ok (ofWhole negative significand)
        else ofParts negative significand dropped, c :: rest)

/-- A number.  A leading zero stands alone. -/
def readNumber (text : List Char) : Except Fault (Number × List Char) :=
  let (negative, digits) := match text with
    | '-' :: rest => (true, rest)
    | _ => (false, text)
  match digits with
  | [] => .error .unfinished
  | c :: rest =>
    if c = '0' then
      match rest with
      | d :: _ =>
        if (Decimal.digit? d).isSome then .error .malformed
        else readAfterWhole negative 0 0 rest
      | [] => readAfterWhole negative 0 0 rest
    else if (Decimal.digit? c).isSome then
      let (significand, dropped, rest) := readWhole 0 0 digits
      readAfterWhole negative significand dropped rest
    else .error .malformed

/-- Does a number begin here? -/
def startsNumber (c : Char) : Bool :=
  c = '-' ∨ (Decimal.digit? c).isSome

/-! ### Elements and members -/

/-- Goes on to the next element of an array: the text from it, or the text after the bracket. -/
def nextElement (first : Bool) (text : List Char) : Except Fault (Bool × List Char) :=
  match skipBlank text with
  | [] => .error .unfinished
  | c :: rest =>
    if c = ']' then .ok (false, rest)
    else if first then .ok (true, c :: rest)
    else if c = ',' then
      match skipBlank rest with
      | [] => .error .unfinished
      | d :: after => if d = ']' then .error .malformed else .ok (true, d :: after)
    else .error .malformed

/-- Goes on to the next member of an object: the text after the quote that opens its name, or the
text after the brace. -/
def nextMember (first : Bool) (text : List Char) : Except Fault (Bool × List Char) :=
  match skipBlank text with
  | [] => .error .unfinished
  | c :: rest =>
    if c = '\x7d' then .ok (false, rest)
    else
      let opening : Except Fault (List Char) :=
        if first then .ok (c :: rest)
        else if c = ',' then .ok (skipBlank rest)
        else .error .malformed
      match opening with
      | .error fault => .error fault
      | .ok [] => .error .unfinished
      | .ok (d :: after) => if d = '"' then .ok (true, after) else .error .malformed

/-- The colon after a name. -/
def readColon (text : List Char) : Except Fault (List Char) :=
  match skipBlank text with
  | [] => .error .unfinished
  | c :: rest => if c = ':' then .ok rest else .error .malformed

/-- The elements that are left, in front of which `done` have been read, newest first. -/
def readElements {α : Type} (element : Read α) :
    Nat → Bool → List α → List Char → Except Fault (List α × List Char)
  | 0, _, _, _ => .error .unfinished
  | fuel + 1, first, done, text =>
    match nextElement first text with
    | .error fault => .error fault
    | .ok (false, rest) => .ok (done.reverse, rest)
    | .ok (true, rest) =>
      match element rest with
      | .error fault => .error fault
      | .ok (a, rest) => readElements element fuel false (a :: done) rest

/-! ### Values that are passed over -/

/-- Passes over the characters of a string without asking what its escapes spell. -/
def skipStringRest : Nat → List Char → Except Fault (List Char)
  | 0, _ => .error .unfinished
  | _, [] => .error .unfinished
  | fuel + 1, c :: rest =>
    if c = '"' then .ok rest
    else if c = '\\' then
      match rest with
      | [] => .error .unfinished
      | e :: after =>
        if e = 'u' then
          match readHex4 after with
          | .ok (_, after) => skipStringRest fuel after
          | .error fault => .error fault
        else if "\"\\/bfnrt".toList.contains e then skipStringRest fuel after
        else .error .malformed
    else if c.toNat < 32 then .error .malformed
    else skipStringRest fuel rest

/-- Passes over digits, of which there must be one. -/
def skipDigits (text : List Char) : Except Fault (List Char) :=
  match Decimal.scanDigits 0 0 text with
  | (_, 0, _) => .error .malformed
  | (_, _, rest) => .ok rest

/-- Passes over the digits before the point.  A leading zero stands alone. -/
def skipWhole (text : List Char) : Except Fault (List Char) :=
  match text with
  | '0' :: d :: rest => if (Decimal.digit? d).isSome then .error .malformed else .ok (d :: rest)
  | _ => skipDigits text

/-- Passes over a point and the digits after it. -/
def skipFraction (text : List Char) : Except Fault (List Char) :=
  match text with
  | '.' :: rest => skipDigits rest
  | _ => .ok text

/-- Passes over an exponent. -/
def skipExponent (text : List Char) : Except Fault (List Char) :=
  match text with
  | c :: rest => if c = 'e' ∨ c = 'E' then skipDigits (Decimal.scanSign rest).2 else .ok text
  | [] => .ok []

/-- Passes over a number without asking how large it is. -/
def skipNumber (text : List Char) : Except Fault (List Char) := do
  let digits := match text with
    | '-' :: rest => rest
    | _ => text
  skipExponent (← skipFraction (← skipWhole digits))

mutual

/-- Passes over any value. -/
def skipValue : Nat → List Char → Except Fault (List Char)
  | 0, _ => .error .unfinished
  | fuel + 1, text =>
    match skipBlank text with
    | [] => .error .unfinished
    | c :: rest =>
      if c = 'n' then readWord ['u', 'l', 'l'] rest
      else if c = 't' then readWord ['r', 'u', 'e'] rest
      else if c = 'f' then readWord ['a', 'l', 's', 'e'] rest
      else if startsNumber c then skipNumber (c :: rest)
      else if c = '"' then skipStringRest (rest.length + 1) rest
      else if c = '[' then skipElements fuel true rest
      else if c = '\x7b' then skipMembers fuel true rest
      else .error .malformed

def skipElements : Nat → Bool → List Char → Except Fault (List Char)
  | 0, _, _ => .error .unfinished
  | fuel + 1, first, text =>
    match nextElement first text with
    | .error fault => .error fault
    | .ok (false, rest) => .ok rest
    | .ok (true, rest) =>
      match skipValue fuel rest with
      | .error fault => .error fault
      | .ok rest => skipElements fuel false rest

def skipMembers : Nat → Bool → List Char → Except Fault (List Char)
  | 0, _, _ => .error .unfinished
  | fuel + 1, first, text =>
    match nextMember first text with
    | .error fault => .error fault
    | .ok (false, rest) => .ok rest
    | .ok (true, rest) =>
      match skipStringRest (rest.length + 1) rest with
      | .error fault => .error fault
      | .ok rest =>
        match readColon rest with
        | .error fault => .error fault
        | .ok rest =>
          match skipValue fuel rest with
          | .error fault => .error fault
          | .ok rest => skipMembers fuel false rest

end

/-- Passes over any value at the head of a text. -/
def skip (text : List Char) : Except Fault (List Char) :=
  skipValue (2 * text.length + 2) text

/-! ### Values of another type -/

/-- The fault of a value that is not of the type asked for: what is wrong with the value itself
comes first, but arrays and objects are not looked into. -/
def mismatchAt {α : Type} (text : List Char) : Except Fault α :=
  match text with
  | [] => .error .unfinished
  | c :: rest =>
    let checked : Except Fault Unit :=
      if c = 'n' then (readWord ['u', 'l', 'l'] rest).map fun _ => ()
      else if c = 't' then (readWord ['r', 'u', 'e'] rest).map fun _ => ()
      else if c = 'f' then (readWord ['a', 'l', 's', 'e'] rest).map fun _ => ()
      else if startsNumber c then (readNumber text).map fun _ => ()
      else if c = '"' then (readString rest).map fun _ => ()
      else if c = '[' ∨ c = '\x7b' then .ok ()
      else .error .malformed
    match checked with
    | .ok () => .error .mismatch
    | .error fault => .error fault

end LuaConfig.Json
