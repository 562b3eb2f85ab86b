/-
The library of strings.

Positions are counted from 1, or from the end where they are negative.
-/
import LuaConfig.Lua.Format
import LuaConfig.Lua.Library.Argument
import LuaConfig.Lua.Library.Pack
import LuaConfig.Lua.Pattern

namespace LuaConfig.Lua.Library

-- powers are the built-in ones
attribute [local instance (2000)] instPowNat

/-! ### Positions -/

/-- The last position that is meant. -/
def lastPosition (n : Int64) (length : Nat) : Nat :=
  let i := n.toInt
  if (length : Int) < i then length
  else if 0 ≤ i then i.toNat
  else if i < -(length : Int) then 0
  else ((length : Int) + i + 1).toNat

/-- The part of a string from a first to a last position. -/
def slice (s : Octets) (first last : Nat) : Octets :=
  if last < first then .empty else s.extract (first - 1) last

def sub (inv : Invocation) (σ : Store) : Step :=
  inv.string 1 (fun s σ => inv.int 2 (fun i σ => inv.intOr 3 (-1) (fun j σ =>
    returnString (slice s (firstPosition i s.size) (lastPosition j s.size)) σ) σ) σ) σ

def byte (inv : Invocation) (σ : Store) : Step :=
  inv.string 1 (fun s σ => inv.intOr 2 1 (fun i σ =>
    let first := firstPosition i s.size
    inv.intOr 3 (Int64.ofNat first) (fun j σ =>
      let octets := (slice s first (lastPosition j s.size)).toList
      .done (octets.map fun b => .int (Int64.ofNat b.toNat)) σ) σ) σ) σ

/-- The octets of the arguments from position `n` on. -/
def octetArguments (inv : Invocation) : (count : Nat) → (n : Nat) → Octets → Store → Step
  | 0, _, out, σ => returnString out σ
  | count + 1, n, out, σ =>
    inv.int n (fun i σ =>
      if 0 ≤ i ∧ i ≤ 255 then octetArguments inv count (n + 1) (out.push i.toUInt64.toUInt8) σ
      else inv.refuse n "value out of range" σ) σ

/-- The longest string that is ever made of copies. -/
def maxRepeated : Nat := 2 ^ (31 : Nat) - 1

def rep (inv : Invocation) (σ : Store) : Step :=
  inv.string 1 (fun s σ => inv.int 2 (fun n σ => inv.stringOr 3 .empty (fun separator σ =>
    if n ≤ 0 then returnString .empty σ
    else
      let count := n.toInt.toNat
      if maxRepeated / count < s.size + separator.size then
        .raiseHere "resulting string too large" σ
      else
        let size := count * s.size + (count - 1) * separator.size
        Operation.makeString size (fun _ =>
          Octets.repeatOnto s separator (if size = 0 then 0 else count)
            (ByteArray.emptyWithCapacity size)) return1 σ) σ) σ) σ

/-! ### Patterns -/

def contentValue : Pattern.Content → Value
  | .text s => .str s
  | .position n => .int (Int64.ofNat n)

/-- Goes on with the contents of the captures of a match. -/
def withContents (subject : Octets) (captures : Pattern.Captures) (whole : Bool) (s e : Nat)
    (k : Continuation (List Value)) (σ : Store) : Step :=
  match Pattern.contents subject captures whole s e with
  | .ok contents => k (contents.map contentValue) σ
  | .error message => .raiseHere message σ

/-- Does a pattern stand for the head of a subject only? -/
def isAnchored (pattern : Octets) : Bool := pattern.octet 0 = 94

/-- Looks for a pattern.  Returns its place and its captures, or its captures alone. -/
def findPattern (inv : Invocation) (withPlace : Bool) (σ : Store) : Step :=
  inv.string 1 (fun s σ => inv.string 2 (fun pattern σ => inv.intOr 3 1 (fun i σ =>
    let start := firstPosition i s.size - 1
    if s.size < start then .done [.nil] σ
    else if withPlace && ((inv.arg 4).isTrue || Pattern.isPlain pattern) then
      match Octets.findFrom? s pattern (s.size + 1) start with
      | some at_ =>
        .done [.int (Int64.ofNat (at_ + 1)), .int (Int64.ofNat (at_ + pattern.size))] σ
      | none => .done [.nil] σ
    else
      let anchored := isAnchored pattern
      match Pattern.search s pattern (if anchored then 1 else 0) anchored (s.size + 1) start with
      | .error message => .raiseHere message σ
      | .ok none => .done [.nil] σ
      | .ok (some (b, e, captures)) =>
        withContents s captures (!withPlace) b e (fun vs σ =>
          if withPlace then
            .done (.int (Int64.ofNat (b + 1)) :: .int (Int64.ofNat e) :: vs) σ
          else .done vs σ) σ) σ) σ) σ

/-- The next match of a walk: where it begins and ends, and its captures. -/
def walkMatch (walk : MatchWalk) :
    (fuel s : Nat) → Except String (Option (Nat × Nat × Pattern.Captures))
  | 0, _ => .ok none
  | fuel + 1, s => do
    if walk.subject.size < s then return none
    match ← Pattern.matchAt walk.subject walk.pattern 0 s with
    | some (e, captures) =>
      if walk.lastEnd = some e then walkMatch walk fuel (s + 1) else return some (s, e, captures)
    | none => walkMatch walk fuel (s + 1)

/-- Goes on with a walk over matches, whose state stands in the function at place `ref`. -/
def nextMatch (ref : Nat) (walk : MatchWalk) (σ : Store) : Step :=
  match walkMatch walk (walk.subject.size + 2) walk.position with
  | .error message => .raiseHere message σ
  | .ok none => .done [.nil] σ
  | .ok (some (s, e, captures)) =>
    let walk := { walk with position := e, lastEnd := some e }
    withContents walk.subject captures true s e (fun vs σ => .done vs σ)
      { σ with functions := σ.functions.setIfInBounds ref (.matches walk) }

def gmatch (inv : Invocation) (σ : Store) : Step :=
  inv.string 1 (fun s σ => inv.string 2 (fun pattern σ => inv.intOr 3 1 (fun i σ =>
    let start := firstPosition i s.size - 1
    let (f, σ) := σ.newFunction (.matches ⟨s, pattern, min start (s.size + 1), none⟩)
    .done [f] σ) σ) σ) σ

/-- The text that a replacement stands for, in which escapes name captures. -/
def expand (subject : Octets) (captures : Pattern.Captures) (s e : Nat) :
    List UInt8 → Octets → Except String Octets
  | [], out => .ok out
  | b :: rest, out =>
    if b = Pattern.escape then
      match rest with
      | [] => .error "invalid use of '%' in replacement string"
      | c :: rest =>
        if c = Pattern.escape then expand subject captures s e rest (out.push c)
        else if c = 48 then expand subject captures s e rest (out ++ subject.extract s e)
        else if Octets.isDigit c then
          match Pattern.content subject captures (c.toNat - 49) s e with
          | .error message => .error message
          | .ok (.text t) => expand subject captures s e rest (out ++ t)
          | .ok (.position n) =>
            expand subject captures s e rest (out ++ Octets.ofString (Nat.repr n))
        else .error "invalid use of '%' in replacement string"
    else expand subject captures s e rest (out.push b)

/-- Goes on with what takes the place of a match. -/
def replacement (inv : Invocation) (subject : Octets) (captures : Pattern.Captures) (s e : Nat)
    (k : Continuation Octets) (σ : Store) : Step :=
  let original := subject.extract s e
  let accept : Continuation Value := fun v σ =>
    if !v.isTrue then k original σ
    else
      match v.joinText? with
      | some t => k t σ
      | none => .raiseHere ("invalid replacement value (a " ++ σ.typeName v ++ ")") σ
  match inv.arg 3 with
  | .table ref =>
    withContents subject captures true s e (fun vs σ =>
      Operation.index .builtin (.table ref) (vs.headD .nil) none accept σ) σ
  | .func ref =>
    withContents subject captures true s e (fun vs σ => .callOne none (.func ref) vs accept σ) σ
  | .builtin f =>
    withContents subject captures true s e (fun vs σ => .callOne none (.builtin f) vs accept σ) σ
  | v =>
    match expand subject captures s e ((v.joinText?.getD .empty).toList) .empty with
    | .ok t => k t σ
    | .error message => .raiseHere message σ

/-- Replaces matches from place `s` on, `count` having been replaced before; `lastEnd` is where the
last of them ended. -/
def replaceFrom (inv : Invocation) (subject pattern : Octets) (limit : Nat) (anchored : Bool) :
    (fuel s count : Nat) → (lastEnd : Option Nat) → (out : Octets) → Store → Step
  | 0, _, count, _, out, σ =>
    let (v, σ) := σ.newString out
    .done [v, .int (Int64.ofNat count)] σ
  | fuel + 1, s, count, lastEnd, out, σ =>
    let finish (s : Nat) (out : Octets) (count : Nat) (σ : Store) : Step :=
      let (v, σ) := σ.newString (out ++ subject.extract s subject.size)
      .done [v, .int (Int64.ofNat count)] σ
    if limit ≤ count then finish s out count σ
    else
      let skip : Unit → Step := fun _ =>
        if s < subject.size then
          let out := out.push (subject.octet s)
          if anchored then finish (s + 1) out count σ
          else replaceFrom inv subject pattern limit anchored fuel (s + 1) count lastEnd out σ
        else finish s out count σ
      match Pattern.matchAt subject pattern (if anchored then 1 else 0) s with
      | .error message => .raiseHere message σ
      | .ok none => skip ()
      | .ok (some (e, captures)) =>
        if lastEnd = some e then skip ()
        else
          replacement inv subject captures s e (fun t σ =>
            let out := out ++ t
            if anchored then finish e out (count + 1) σ
            else
              replaceFrom inv subject pattern limit anchored fuel e (count + 1) (some e) out σ) σ

def gsub (inv : Invocation) (σ : Store) : Step :=
  inv.string 1 (fun s σ => inv.string 2 (fun pattern σ =>
    let run (σ : Store) : Step :=
      inv.intOr 4 (Int64.ofNat (s.size + 1)) (fun n σ =>
        replaceFrom inv s pattern n.toInt.toNat (isAnchored pattern) (2 * s.size + 3) 0 0 none
          .empty σ) σ
    match inv.arg 3 with
    | .nil => inv.refuseType 3 "string/function/table" σ
    | .bool _ => inv.refuseType 3 "string/function/table" σ
    | .failure _ => inv.refuseType 3 "string/function/table" σ
    | _ => run σ) σ) σ

/-! ### Formatted text -/

/-- The letter of a conversion, how it reads its modifiers, and what it makes of an argument. -/
def convert (inv : Invocation) (n : Nat) (letter : Char) (modifiers : List Char)
    (k : Continuation Octets) (σ : Store) : Step :=
  let invalid (σ : Store) : Step :=
    .raiseHere ("invalid conversion '%" ++ String.ofList (modifiers ++ [letter]) ++
      "' to 'format'") σ
  let withSpec (flags : String) (precision : Bool) (make : Format.Spec → Store → Step)
      (σ : Store) : Step :=
    match Format.Spec.ofModifiers? flags precision modifiers with
    | some spec => make spec σ
    | none => invalid σ
  let signed (σ : Store) : Step :=
    inv.int n (fun i σ => withSpec "-+0 " true (fun spec σ => k (Format.signedInt spec i) σ) σ) σ
  let unsigned (base : Nat) (capitals : Bool) (σ : Store) : Step :=
    inv.int n (fun i σ => withSpec "-#0" true (fun spec σ =>
      k (Format.unsignedInt spec base capitals i) σ) σ) σ
  let double (layout : Decimal.Layout) (capitals : Bool) (σ : Store) : Step :=
    inv.double n (fun x σ => withSpec "-+#0 " true (fun spec σ =>
      k (Format.float spec layout capitals x) σ) σ) σ
  let hexadecimal (capitals : Bool) (σ : Store) : Step :=
    inv.double n (fun x σ => withSpec "-+#0 " true (fun spec σ =>
      k (Format.hexFloat spec capitals x) σ) σ) σ
  match letter with
  | 'c' => inv.int n (fun i σ => withSpec "-" false (fun spec σ =>
      k (spec.pad (Octets.ofList [i.toUInt64.toUInt8])) σ) σ) σ
  | 'd' => signed σ
  | 'i' => signed σ
  | 'u' => inv.int n (fun i σ => withSpec "-0" true (fun spec σ =>
      k (Format.unsignedInt spec 10 false i) σ) σ) σ
  | 'o' => unsigned 8 false σ
  | 'x' => unsigned 16 false σ
  | 'X' => unsigned 16 true σ
  | 'a' => hexadecimal false σ
  | 'A' => hexadecimal true σ
  | 'f' => double .fixed false σ
  | 'e' => double .scientific false σ
  | 'E' => double .scientific true σ
  | 'g' => double .general false σ
  | 'G' => double .general true σ
  | 'p' => withSpec "-" false (fun spec σ =>
      match inv.arg n with
      | .table ref => k (spec.pad (Octets.ofString (identity (σ.tableAddress ref)))) σ
      | .func ref => k (spec.pad (Octets.ofString (identity (σ.functionAddress ref)))) σ
      | _ => k (spec.pad (Octets.ofString "(null)")) σ) σ
  | 'q' =>
    if !modifiers.isEmpty then .raiseHere "specifier '%q' cannot have modifiers" σ
    else
      match inv.arg n with
      | .str s => k (Format.quoted s) σ
      | .int i => k (Format.quotedInt i) σ
      | .float x => k (Format.quotedFloat x) σ
      | .nil => k (Octets.ofString "nil") σ
      | .bool b => k (Octets.ofString (if b then "true" else "false")) σ
      | _ => inv.refuse n "value has no literal form" σ
  | 's' => text (inv.arg n) (fun s σ =>
      if modifiers.isEmpty then k s σ
      else if s.toList.contains 0 then inv.refuse n "string contains zeros" σ
      else withSpec "-" true (fun spec σ =>
        if spec.precision.isNone ∧ 100 ≤ s.size then k s σ else k (Format.string spec s) σ) σ) σ
  | _ => invalid σ

/-- The text of a format from here on; `n` is the last argument that has been used. -/
def formatFrom (inv : Invocation) :
    (fuel : Nat) → (n : Nat) → List UInt8 → (out : Octets) → Store → Step
  | 0, _, _, out, σ => returnString out σ
  | _, _, [], out, σ => returnString out σ
  | fuel + 1, n, b :: rest, out, σ =>
    if b ≠ Pattern.escape then formatFrom inv fuel n rest (out.push b) σ
    else if rest.head? = some Pattern.escape then
      formatFrom inv fuel n rest.tail (out.push b) σ
    else if inv.args.length < n + 1 then inv.refuse (n + 1) "no value" σ
    else
      let modifiers := (Numeral.chars rest).takeWhile Format.isModifier
      match rest.drop modifiers.length with
      | [] =>
        .raiseHere ("invalid conversion '%" ++ String.ofList modifiers ++ "' to 'format'") σ
      | letter :: rest =>
        if Format.maxModifiers < modifiers.length then
          .raiseHere "invalid format string to 'format'" σ
        else
          convert inv (n + 1) (Char.ofNat letter.toNat) modifiers (fun t σ =>
            formatFrom inv fuel (n + 1) rest (out ++ t) σ) σ

def format (inv : Invocation) (σ : Store) : Step :=
  inv.string 1 (fun s σ => formatFrom inv (s.size + 1) 1 s.toList .empty σ) σ

/-! ### Arithmetic -/

/-- Arithmetic in which a string takes part.  Where an operand is no numeral, a second operand that
is no string may know what to do. -/
def stringArithmetic (op : Arithmetic) (inv : Invocation) (σ : Store) : Step :=
  let a := inv.arg 1
  let b := inv.arg 2
  match a.number?, b.number? with
  | some m, some n =>
    match Number.arithmetic op m n with
    | .ok r => .done [r.toValue] σ
    | .error message => .raise message σ
  | _, _ =>
    let handler : Value := match b with
      | .str _ => .nil
      | b => σ.metamethod b (Event.ofArithmetic op)
    match handler with
    | .nil =>
      .raiseHere ("attempt to perform arithmetic on a " ++ σ.typeName a ++ " value") σ
    | handler => .callOne none handler [a, b] return1 σ

def stringFunction (f : StringFunction) (inv : Invocation) (σ : Store) : Step :=
  match f with
  | .byte => byte inv σ
  | .char => octetArguments inv inv.args.length 1 .empty σ
  | .dump => dump inv σ
  | .find => findPattern inv true σ
  | .format => format inv σ
  | .gmatch => gmatch inv σ
  | .gsub => gsub inv σ
  | .len => inv.string 1 (fun s σ => returnInt s.size σ) σ
  | .lower => inv.string 1 (fun s σ => returnString (s.map Octets.lower) σ) σ
  | .match => findPattern inv false σ
  | .pack => packValues inv σ
  | .packsize => packedSize inv σ
  | .rep => rep inv σ
  | .reverse => inv.string 1 (fun s σ => returnString s.reverse σ) σ
  | .sub => sub inv σ
  | .unpack => unpackValues inv σ
  | .upper => inv.string 1 (fun s σ => returnString (s.map Octets.upper) σ) σ

end LuaConfig.Lua.Library
