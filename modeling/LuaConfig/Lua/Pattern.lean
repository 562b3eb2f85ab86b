/-
Patterns, and where they match.

A match is looked for by backtracking: every way to go on from a place in the subject and a place
in the pattern is tried in order, and the first that reaches the end of the pattern wins.  A way
either ends or moves on in the subject or in the pattern, so that their lengths together bound how
deep the search goes; that is its fuel.
-/
import LuaConfig.Lua.Octets

namespace LuaConfig.Lua

namespace Pattern

/-- How far a capture has come: it is open, closed with a length, or a mere position. -/
inductive Extent where
  | «open»
  | closed (length : Nat)
  | position
  deriving DecidableEq, Repr

/-- A capture: where it begins and how far it has come. -/
structure Captured where
  start : Nat
  extent : Extent
  deriving DecidableEq, Repr

/-- The captures of a match, in the order in which they were opened. -/
abbrev Captures : Type := Array Captured

/-- The end of a match and its captures, or nothing where there is no match; or what is wrong with
the pattern. -/
abbrev Result : Type := Except String (Option (Nat × Captures))

/-- The largest number of captures. -/
def maxCaptures : Nat := 32

/-- The octet that begins an escape. -/
def escape : UInt8 := 37

def isPunctuation (c : UInt8) : Bool :=
  (33 ≤ c ∧ c ≤ 47) ∨ (58 ≤ c ∧ c ≤ 64) ∨ (91 ≤ c ∧ c ≤ 96) ∨ (123 ≤ c ∧ c ≤ 126)

/-- Is `c` in the class of a small letter? -/
def inClass? (letter c : UInt8) : Option Bool :=
  if letter = 97 then some (Octets.isLetter c)
  else if letter = 99 then some (c < 32 ∨ c = 127)
  else if letter = 100 then some (Octets.isDigit c)
  else if letter = 103 then some (33 ≤ c ∧ c ≤ 126)
  else if letter = 108 then some (97 ≤ c ∧ c ≤ 122)
  else if letter = 112 then some (isPunctuation c)
  else if letter = 115 then some (Octets.isSpace c)
  else if letter = 117 then some (65 ≤ c ∧ c ≤ 90)
  else if letter = 119 then some (Octets.isLetter c ∨ Octets.isDigit c)
  else if letter = 120 then some (Octets.isHexDigit c)
  else none

/-- Does `c` match an escaped octet?  A capital stands for what its small letter does not. -/
def matchesEscaped (c escaped : UInt8) : Bool :=
  match inClass? (Octets.lower escaped) c with
  | some inside => if 65 ≤ escaped ∧ escaped ≤ 90 then !inside else inside
  | none => escaped = c

/-- Is `c` in a set?  The set is read from place `p` on, up to the bracket at `last`. -/
def inSet (pattern : Octets) (c : UInt8) (last : Nat) : (fuel p : Nat) → Bool
  | 0, _ => false
  | fuel + 1, p =>
    if last ≤ p then false
    else
      let b := pattern.octet p
      if b = escape then
        matchesEscaped c (pattern.octet (p + 1)) || inSet pattern c last fuel (p + 2)
      else if pattern.octet (p + 1) = 45 ∧ p + 2 < last then
        decide (b ≤ c ∧ c ≤ pattern.octet (p + 2)) || inSet pattern c last fuel (p + 3)
      else b == c || inSet pattern c last fuel (p + 1)

/-- Is `c` in the set from the bracket at `p` to the one at `last`? -/
def matchesSet (pattern : Octets) (c : UInt8) (p last : Nat) : Bool :=
  if pattern.octet (p + 1) = 94 then !inSet pattern c last (last + 1) (p + 2)
  else inSet pattern c last (last + 1) (p + 1)

/-- The place behind a set, of which the octets from `p` on have still to be read. -/
def setEnd (pattern : Octets) : (fuel p : Nat) → (first : Bool) → Except String Nat
  | 0, _, _ => .error "malformed pattern (missing ']')"
  | fuel + 1, p, first =>
    if pattern.size ≤ p then .error "malformed pattern (missing ']')"
    else
      let b := pattern.octet p
      if b = 93 ∧ first = false then .ok (p + 1)
      else if b = escape then setEnd pattern fuel (min pattern.size (p + 2)) false
      else setEnd pattern fuel (p + 1) false

/-- The place behind the single item at `p`. -/
def itemEnd (pattern : Octets) (p : Nat) : Except String Nat :=
  let b := pattern.octet p
  if b = escape then
    if pattern.size ≤ p + 1 then .error "malformed pattern (ends with '%')" else .ok (p + 2)
  else if b = 91 then
    let inside := if pattern.octet (p + 1) = 94 then p + 2 else p + 1
    setEnd pattern (pattern.size + 1) inside true
  else .ok (p + 1)

/-- Does the item from `p` to `next` match the octet at place `s` of the subject? -/
def matchesItem (subject pattern : Octets) (s p next : Nat) : Bool :=
  if subject.size ≤ s then false
  else
    let c := subject.octet s
    let b := pattern.octet p
    if b = 46 then true
    else if b = escape then matchesEscaped c (pattern.octet (p + 1))
    else if b = 91 then matchesSet pattern c p (next - 1)
    else b = c

/-- How often an item matches from place `s` on, `fuel` times at most. -/
def countItems (subject pattern : Octets) (p next : Nat) : (fuel s : Nat) → Nat
  | 0, _ => 0
  | fuel + 1, s =>
    if matchesItem subject pattern s p next then
      countItems subject pattern p next fuel (s + 1) + 1
    else 0

/-- The place behind the text between two octets that balance each other. -/
def balanceEnd? (subject : Octets) (opening closing : UInt8) : (fuel s depth : Nat) → Option Nat
  | 0, _, _ => none
  | fuel + 1, s, depth =>
    if subject.size ≤ s then none
    else
      let c := subject.octet s
      if c = closing then
        if depth = 1 then some (s + 1) else balanceEnd? subject opening closing fuel (s + 1) (depth - 1)
      else if c = opening then balanceEnd? subject opening closing fuel (s + 1) (depth + 1)
      else balanceEnd? subject opening closing fuel (s + 1) depth

/-- The capture that is opened last among those still open. -/
def lastOpen? (captures : Captures) : Option Nat :=
  (List.range captures.size).reverse.find? fun i =>
    (captures[i]?).any fun c => c.extent = .open

/-- The closed capture of the given number, and its length. -/
def closedCapture (captures : Captures) (index : Nat) : Except String (Nat × Nat) :=
  match captures[index - 1]? with
  | some ⟨start, .closed length⟩ =>
    if index = 0 then .error "invalid capture index %0" else .ok (start, length)
  | _ => .error ("invalid capture index %" ++ Nat.repr index)

/-- Tries the ways to go on after `count`, `count - 1`, … matches of an item. -/
def longestFirst (next : Nat → Result) : (count : Nat) → Result
  | 0 => next 0
  | count + 1 => do
    match ← next (count + 1) with
    | some r => return some r
    | none => longestFirst next count

/-- Tries the ways to go on after no match of an item, after one, and so on up to `count`. -/
def shortestFirst (next : Nat → Result) (from_ : Nat) : (count : Nat) → Result
  | 0 => next from_
  | count + 1 => do
    match ← next from_ with
    | some r => return some r
    | none => shortestFirst next (from_ + 1) count

/-- Matches the pattern from place `p` on against the subject from place `s` on. -/
def run (subject pattern : Octets) : (fuel : Nat) → (s p : Nat) → Captures → Result
  | 0, _, _, _ => .error "pattern too complex"
  | fuel + 1, s, p, captures =>
    let go := run subject pattern fuel
    let item : Unit → Result := fun _ => do
      let next ← itemEnd pattern p
      let suffix := pattern.octet next
      if suffix = 63 then
        if matchesItem subject pattern s p next then
          match ← go (s + 1) (next + 1) captures with
          | some r => return some r
          | none => go s (next + 1) captures
        else go s (next + 1) captures
      else if suffix = 43 then
        if matchesItem subject pattern s p next then
          let count := countItems subject pattern p next subject.size (s + 1)
          longestFirst (fun n => go (s + 1 + n) (next + 1) captures) count
        else return none
      else if suffix = 42 then
        let count := countItems subject pattern p next subject.size s
        longestFirst (fun n => go (s + n) (next + 1) captures) count
      else if suffix = 45 then
        let count := countItems subject pattern p next subject.size s
        shortestFirst (fun n => go (s + n) (next + 1) captures) 0 count
      else if matchesItem subject pattern s p next then go (s + 1) next captures
      else return none
    if pattern.size ≤ p then .ok (some (s, captures))
    else
      let b := pattern.octet p
      let c := pattern.octet (p + 1)
      if b = 40 then
        if maxCaptures ≤ captures.size then .error "too many captures"
        else if c = 41 then go s (p + 2) (captures.push ⟨s, .position⟩)
        else go s (p + 1) (captures.push ⟨s, .open⟩)
      else if b = 41 then
        match lastOpen? captures with
        | some i => go s (p + 1) (captures.modify i fun c => { c with extent := .closed (s - c.start) })
        | none => .error "invalid pattern capture"
      else if b = 36 ∧ pattern.size = p + 1 then
        .ok (if s = subject.size then some (s, captures) else none)
      else if b = escape ∧ c = 98 then
        if pattern.size ≤ p + 3 then .error "malformed pattern (missing arguments to '%b')"
        else if s < subject.size ∧ subject.octet s = pattern.octet (p + 2) then
          match balanceEnd? subject (pattern.octet (p + 2)) (pattern.octet (p + 3)) subject.size
              (s + 1) 1 with
          | some s => go s (p + 4) captures
          | none => .ok none
        else .ok none
      else if b = escape ∧ c = 102 then
        if pattern.octet (p + 2) ≠ 91 then .error "missing '[' after '%f' in pattern"
        else do
          let next ← itemEnd pattern (p + 2)
          let before := if s = 0 then 0 else subject.octet (s - 1)
          if !matchesSet pattern before (p + 2) (next - 1) &&
              matchesSet pattern (subject.octet s) (p + 2) (next - 1) then
            go s next captures
          else return none
      else if b = escape ∧ Octets.isDigit c then do
        let (start, length) ← closedCapture captures (c.toNat - 48)
        if subject.extract start (start + length) == subject.extract s (s + length) ∧
            s + length ≤ subject.size then
          go (s + length) (p + 2) captures
        else return none
      else item ()

/-- Matches a pattern from place `p` on at place `s` of a subject. -/
def matchAt (subject pattern : Octets) (p s : Nat) : Result :=
  run subject pattern (2 * (subject.size + pattern.size) + 4) s p #[]

/-- The first match from place `s` on: where it begins and ends, and its captures.  With `anchored`
no other place is tried. -/
def search (subject pattern : Octets) (p : Nat) (anchored : Bool) :
    (fuel s : Nat) → Except String (Option (Nat × Nat × Captures))
  | 0, _ => .ok none
  | fuel + 1, s => do
    match ← matchAt subject pattern p s with
    | some (e, captures) => return some (s, e, captures)
    | none =>
      if anchored ∨ subject.size ≤ s then return none
      else search subject pattern p anchored fuel (s + 1)

/-- Has a pattern no octet of special meaning? -/
def isPlain (pattern : Octets) : Bool :=
  pattern.toList.all fun b => !("^$*+?.([%-".toList.any fun c => c.toNat = b.toNat)

/-- What a capture holds: a string, or the position of an empty one, counted from 1. -/
inductive Content where
  | text (s : Octets)
  | position (n : Nat)

/-- The content of the capture of the given number, counted from 0; where a match from `s` to `e`
has none the first one is the whole match. -/
def content (subject : Octets) (captures : Captures) (index s e : Nat) : Except String Content :=
  match captures[index]? with
  | some ⟨start, .closed length⟩ => .ok (.text (subject.extract start (start + length)))
  | some ⟨start, .position⟩ => .ok (.position (start + 1))
  | some ⟨_, .open⟩ => .error "unfinished capture"
  | none =>
    if index = 0 then .ok (.text (subject.extract s e))
    else .error ("invalid capture index %" ++ Nat.repr (index + 1))

/-- The contents of all captures of a match from `s` to `e`; the whole match where it has none and
`whole` is set. -/
def contents (subject : Octets) (captures : Captures) (whole : Bool) (s e : Nat) :
    Except String (List Content) :=
  let count := if captures.isEmpty ∧ whole then 1 else captures.size
  (List.range count).mapM fun i => content subject captures i s e

end Pattern

end LuaConfig.Lua
