/-
The library of numbers.
-/
import LuaConfig.Lua.Library.Argument

namespace LuaConfig.Lua.Library

-- powers are the built-in ones
attribute [local instance (2000)] instPowNat

/-- A whole double as an integer if it is one of 64 bits. -/
def wholeNumber (x : Float) : Value :=
  match Value.floatToInt? x with
  | some n => .int n
  | none => .float x

/-- A random integer from `low` to `high`. -/
def randomInt (inv : Invocation) (n : Nat) (low high : Int64) (bits : UInt64) (σ : Store) : Step :=
  if high < low then inv.refuse n "interval is empty" σ
  else
    let (offset, random) := Random.project (high.toUInt64 - low.toUInt64) 1000 bits σ.random
    .done [.int (low + offset.toInt64)] { σ with random := random }

def random (inv : Invocation) (σ : Store) : Step :=
  let (bits, random) := σ.random.next
  let σ := { σ with random := random }
  match inv.args with
  | [] => .done [.float (Decimal.nearest false (bits.toNat / 2 ^ (11 : Nat)) (2 ^ (53 : Nat)))] σ
  | [_] => inv.int 1 (fun high σ =>
      if high = 0 then .done [.int bits.toInt64] σ else randomInt inv 1 1 high bits σ) σ
  | [_, _] => inv.int 1 (fun low σ => inv.int 2 (fun high σ =>
      randomInt inv 2 low high bits σ) σ) σ
  | _ => .raiseHere "wrong number of arguments" σ

/-- Makes random numbers begin anew, at two words, which are returned. -/
def seedRandom (first second : UInt64) (σ : Store) : Step :=
  .done [.int first.toInt64, .int second.toInt64]
    { σ with random := Random.ofSeed (first, second) }

def randomseed (inv : Invocation) (σ : Store) : Step :=
  match inv.args with
  | [] => seedRandom σ.choices.seed.1 σ.random.next.1 σ
  | _ => inv.number 1 (fun n σ => inv.intOr 2 0 (fun second σ =>
      let first := match n, n.toInt? with
        | _, some i => i.toUInt64
        | .int i, none => i.toUInt64
        | .float x, none => x.toBits
      seedRandom first second.toUInt64 σ) σ) σ

/-- The value that comes last, or first where `downward`, by the order of values. -/
def extremum (downward : Bool) (best : Value) : List Value → Store → Step
  | [], σ => .done [best] σ
  | v :: vs, σ =>
    let (a, b) := if downward then (v, best) else (best, v)
    Operation.less .builtin a b (fun replaces σ =>
      extremum downward (if replaces then v else best) vs σ) σ

/-- The exponent and the fraction, at least one half and below one, of a double. -/
def splitExponent (x : Float) : Float × Int :=
  match Decimal.Binary64.ofFloat x with
  | .finite negative m q =>
    if m = 0 then (x, 0)
    else
      let e : Int := (Nat.log2 m : Int) + 1
      (Decimal.nearest negative m (2 ^ e.toNat), e + q)
  | _ => (x, 0)

/-- `x` times a power of two. -/
def scaled (x : Float) (e : Int) : Float :=
  match Decimal.Binary64.ofFloat x with
  | .finite negative m q => Numeral.ofBinary negative m (q + e)
  | _ => x

def fmod (inv : Invocation) (σ : Store) : Step :=
  match inv.arg 1, inv.arg 2 with
  | .int a, .int b =>
    if b = 0 then inv.refuse 2 "zero" σ
    else if b = -1 then .done [.int 0] σ
    else .done [.int (a % b)] σ
  | _, _ => inv.double 1 (fun a σ => inv.double 2 (fun b σ =>
      .done [.float (Number.remainder a b)] σ) σ) σ

def modf (inv : Invocation) (σ : Store) : Step :=
  match inv.arg 1 with
  | .int n => .done [.float (Value.toFloat n), .float 0] σ
  | _ => inv.double 1 (fun x σ =>
      let whole := if x < 0 then x.ceil else x.floor
      .done [.float whole, .float (if whole == x then 0 else x - whole)] σ) σ

def log (inv : Invocation) (σ : Store) : Step :=
  inv.double 1 (fun x σ =>
    match inv.arg 2 with
    | .nil => .done [.float x.log] σ
    | _ => inv.double 2 (fun b σ =>
        let r := if b == 2 then x.log2 else if b == 10 then x.log10 else x.log / b.log
        .done [.float r] σ) σ) σ

/-- Applies a function of doubles to the first argument. -/
def applyDouble (inv : Invocation) (f : Float → Float) (σ : Store) : Step :=
  inv.double 1 (fun x σ => .done [.float (f x)] σ) σ

/-- Rounds the first argument to a whole number, which integers are already. -/
def roundWhole (inv : Invocation) (f : Float → Float) (σ : Store) : Step :=
  match inv.arg 1 with
  | .int n => .done [.int n] σ
  | _ => inv.double 1 (fun x σ => .done [wholeNumber (f x)] σ) σ

/-- Half a turn. -/
def pi : Float := Float.ofBits 0x400921FB54442D18

/-- The double beyond all others. -/
def huge : Float := Float.ofBits 0x7FF0000000000000

def mathFunction (f : MathFunction) (inv : Invocation) (σ : Store) : Step :=
  match f with
  | .abs =>
    match inv.arg 1 with
    | .int n => .done [.int (if n < 0 then 0 - n else n)] σ
    | _ => applyDouble inv Float.abs σ
  | .acos => applyDouble inv Float.acos σ
  | .asin => applyDouble inv Float.asin σ
  | .atan => inv.double 1 (fun y σ =>
      match inv.arg 2 with
      | .nil => .done [.float (Float.atan2 y 1)] σ
      | _ => inv.double 2 (fun x σ => .done [.float (Float.atan2 y x)] σ) σ) σ
  | .ceil => roundWhole inv Float.ceil σ
  | .cos => applyDouble inv Float.cos σ
  | .cosh => applyDouble inv Float.cosh σ
  | .deg => applyDouble inv (· * (180 / pi)) σ
  | .exp => applyDouble inv Float.exp σ
  | .floor => roundWhole inv Float.floor σ
  | .fmod => fmod inv σ
  | .frexp => inv.double 1 (fun x σ =>
      let (m, e) := splitExponent x
      .done [.float m, .int (Int64.ofInt e)] σ) σ
  | .ldexp => inv.double 1 (fun x σ => inv.int 2 (fun e σ =>
      .done [.float (scaled x e.toInt)] σ) σ) σ
  | .log => log inv σ
  | .log10 => applyDouble inv Float.log10 σ
  | .max => inv.value 1 (fun v σ => extremum false v inv.args.tail σ) σ
  | .min => inv.value 1 (fun v σ => extremum true v inv.args.tail σ) σ
  | .modf => modf inv σ
  | .pow => inv.double 1 (fun x σ => inv.double 2 (fun y σ => .done [.float (x.pow y)] σ) σ) σ
  | .rad => applyDouble inv (· * (pi / 180)) σ
  | .random => random inv σ
  | .randomseed => randomseed inv σ
  | .sin => applyDouble inv Float.sin σ
  | .sinh => applyDouble inv Float.sinh σ
  | .sqrt => applyDouble inv Float.sqrt σ
  | .tan => applyDouble inv Float.tan σ
  | .tanh => applyDouble inv Float.tanh σ
  | .tointeger =>
    match (inv.arg 1).number?.bind Number.toInt? with
    | some n => .done [.int n] σ
    | none => inv.value 1 (fun _ σ => .done [.nil] σ) σ
  | .type => inv.value 1 (fun v σ =>
      match v with
      | .int _ => .done [.ofString "integer"] σ
      | .float _ => .done [.ofString "float"] σ
      | _ => .done [.nil] σ) σ
  | .ult => inv.int 1 (fun a σ => inv.int 2 (fun b σ =>
      .done [.bool (a.toUInt64 < b.toUInt64)] σ) σ) σ

end LuaConfig.Lua.Library
