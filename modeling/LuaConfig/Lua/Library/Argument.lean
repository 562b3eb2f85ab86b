/-
The arguments of builtins.

Each function here looks at one argument, counted from 1, and hands on what it found.  Where the
argument is not as it should be, the error names the builtin as the caller did.
-/
import LuaConfig.Lua.Operation.Basic

namespace LuaConfig.Lua

/-- The name under which a builtin is found from the globals, if it is. -/
def Builtin.path? (f : Builtin) : Option String :=
  let find (functions : List (String × Builtin)) : Option String :=
    (functions.find? (·.2 = f)).map (·.1)
  (find Builtin.globals).orElse fun _ =>
    Builtin.libraries.findSome? fun (library, functions) =>
      (find functions).map fun name => library ++ "." ++ name

/-- A call of a builtin: which one, and with what. -/
structure Invocation where
  callee : Builtin
  args : List Value

namespace Invocation

/-- The argument at a position. -/
def arg? (inv : Invocation) (n : Nat) : Option Value := inv.args[n - 1]?

/-- The argument at a position, nil where there is none. -/
def arg (inv : Invocation) (n : Nat) : Value := (inv.arg? n).getD .nil

/-- The message about an argument, for a caller that calls the builtin by `naming`. -/
def message (inv : Invocation) (n : Nat) (why : String) (naming : Option Naming) : String :=
  let about (n : Nat) (name : String) : String :=
    "bad argument #" ++ Nat.repr n ++ " to '" ++ name ++ "' (" ++ why ++ ")"
  match naming with
  | some ⟨.method, name⟩ =>
    if n = 1 then "calling '" ++ name ++ "' on bad self (" ++ why ++ ")" else about (n - 1) name
  | some ⟨_, name⟩ => about n name
  | none => about n (inv.callee.path?.getD "?")

/-- Refuses an argument. -/
def refuse (inv : Invocation) (n : Nat) (why : String) (σ : Store) : Step :=
  .locate 1 (fun site σ =>
    match site with
    | some s => .raiseAt s.place (inv.message n why s.naming) σ
    | none => .raise (inv.message n why none) σ) σ

/-- Refuses an argument that is not of the type it should be. -/
def refuseType (inv : Invocation) (n : Nat) (expected : String) (σ : Store) : Step :=
  let found := match inv.arg? n with
    | some v => σ.typeName v
    | none => "no value"
  inv.refuse n (expected ++ " expected, got " ++ found) σ

/-- Any value, but there has to be one. -/
def value (inv : Invocation) (n : Nat) (k : Continuation Value) (σ : Store) : Step :=
  match inv.arg? n with
  | some v => k v σ
  | none => inv.refuse n "value expected" σ

/-- A table, by its place. -/
def table (inv : Invocation) (n : Nat) (k : Continuation Nat) (σ : Store) : Step :=
  match inv.arg n with
  | .table ref => k ref σ
  | _ => inv.refuseType n "table" σ

/-- A number, or a string that is a numeral. -/
def number (inv : Invocation) (n : Nat) (k : Continuation Number) (σ : Store) : Step :=
  match (inv.arg n).number? with
  | some x => k x σ
  | none => inv.refuseType n "number" σ

def double (inv : Invocation) (n : Nat) (k : Continuation Float) (σ : Store) : Step :=
  inv.number n (fun x σ => k x.toFloat σ) σ

/-- An integer, or a number or numeral that is one. -/
def int (inv : Invocation) (n : Nat) (k : Continuation Int64) (σ : Store) : Step :=
  inv.number n (fun x σ =>
    match x.toInt? with
    | some i => k i σ
    | none => inv.refuse n "number has no integer representation" σ) σ

/-- An integer that may be missing. -/
def intOr (inv : Invocation) (n : Nat) (otherwise : Int64) (k : Continuation Int64) (σ : Store) :
    Step :=
  match inv.arg n with
  | .nil => k otherwise σ
  | _ => inv.int n k σ

/-- A string, or a number as its text. -/
def string (inv : Invocation) (n : Nat) (k : Continuation Octets) (σ : Store) : Step :=
  match (inv.arg n).joinText? with
  | some s => k s σ
  | none => inv.refuseType n "string" σ

/-- A string that may be missing. -/
def stringOr (inv : Invocation) (n : Nat) (otherwise : Octets) (k : Continuation Octets)
    (σ : Store) : Step :=
  match inv.arg n with
  | .nil => k otherwise σ
  | _ => inv.string n k σ

/-- A function. -/
def function (inv : Invocation) (n : Nat) (k : Continuation Value) (σ : Store) : Step :=
  match inv.arg n with
  | .func ref => k (.func ref) σ
  | .builtin f => k (.builtin f) σ
  | _ => inv.refuseType n "function" σ

end Invocation

namespace Library

/-- How a string begins that stands for the code of a function. -/
def dumpMark : String := "\x1bLua"

/-- The first position that is meant, for a string of the given length. -/
def firstPosition (n : Int64) (length : Nat) : Nat :=
  let i := n.toInt
  if 0 < i then i.toNat
  else if i = 0 ∨ i < -(length : Int) then 1
  else ((length : Int) + i + 1).toNat

/-- Returns one value. -/
def return1 (v : Value) (σ : Store) : Step := .done [v] σ

/-- Returns a string, for which memory is counted. -/
def returnString (s : Octets) (σ : Store) : Step :=
  let (v, σ) := σ.newString s
  .done [v] σ

def returnInt (n : Nat) (σ : Store) : Step := .done [.int (Int64.ofNat n)] σ

/-- A hexadecimal numeral of eight digits at least, the identity of a value in its text. -/
def identity (n : Nat) : String :=
  let digits := Nat.toDigits 16 n
  "0x" ++ String.ofList (List.replicate (14 - digits.length) '0' ++ digits)

/-- The text of a value without metamethods. -/
def plainText (σ : Store) (v : Value) : Octets :=
  match v with
  | .str s => s
  | .int n => (Number.int n).text
  | .float x => (Number.float x).text
  | .nil => Octets.ofString "nil"
  | .bool b => Octets.ofString (if b then "true" else "false")
  | .table ref => Octets.ofString (σ.typeName v ++ ": " ++ identity (σ.tableAddress ref))
  | .func ref => Octets.ofString ("function: " ++ identity (σ.functionAddress ref))
  | .builtin f => Octets.ofString ("function: builtin: " ++ identity f.ctorIdx)
  | .failure text => Octets.ofString ("runtime error: " ++ text)

/-- The text of a value. -/
def text (v : Value) (k : Continuation Octets) (σ : Store) : Step :=
  match σ.metamethod v Event.toString with
  | .nil => k (plainText σ v) σ
  | handler =>
    .callOne none handler [v] (fun r σ =>
      match r.joinText? with
      | some s => k s σ
      | none => .raiseHere "'__tostring' must return a string" σ) σ

/-- The texts of values, joined by a separator. -/
def texts (separator : Octets) : List Value → Octets → (k : Continuation Octets) → Store → Step
  | [], out, k, σ => k out σ
  | [v], out, k, σ => text v (fun s σ => k (out ++ s) σ) σ
  | v :: vs, out, k, σ =>
    text v (fun s σ => texts separator vs (out ++ s ++ separator) k σ) σ

end Library

end LuaConfig.Lua
