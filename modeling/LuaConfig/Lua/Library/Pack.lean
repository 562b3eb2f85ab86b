/-
The functions of the library of strings that lay out values in octets, and those that store
functions.
-/
import LuaConfig.Lua.Library.Argument
import LuaConfig.Lua.Pack

namespace LuaConfig.Lua.Library

-- powers are the built-in ones
attribute [local instance (2000)] instPowNat

/-- Raises what is wrong with a format. -/
def refuseFormat (inv : Invocation) (fault : Pack.Fault) (σ : Store) : Step :=
  match fault with
  | .message text => .raiseHere text σ
  | .refusal why => inv.refuse 1 why σ

/-- The directives of a format end at the first octet that is zero. -/
def formatOctets (format : Octets) : List UInt8 := format.toList.takeWhile (· ≠ 0)

/-! ### Values to octets -/

/-- The octets of a double in the given number of them. -/
def doubleOctets (h : Pack.Header) (size : Nat) (x : Float) : Octets :=
  let bits := if size = 4 then x.toFloat32.toBits.toNat else x.toBits.toNat
  Pack.packInt h size bits

/-- Lays out the argument of an item. -/
def packItem (inv : Invocation) (n : Nat) (d : Pack.Directive) (k : Continuation Octets)
    (σ : Store) : Step :=
  match d.item with
  | .int => inv.int n (fun i σ =>
      if Pack.fits true d.size i then k (Pack.packInt d.header d.size i.toInt) σ
      else inv.refuse n "integer overflow" σ) σ
  | .unsigned => inv.int n (fun i σ =>
      if Pack.fits false d.size i then k (Pack.packInt d.header d.size i.toUInt64.toNat) σ
      else inv.refuse n "unsigned overflow" σ) σ
  | .single => inv.double n (fun x σ => k (doubleOctets d.header d.size x) σ) σ
  | .double => inv.double n (fun x σ => k (doubleOctets d.header d.size x) σ) σ
  | .fixed => inv.string n (fun s σ =>
      if d.size < s.size then inv.refuse n "string longer than given size" σ
      else .reserve d.size (fun σ =>
        k (s ++ Octets.ofList (List.replicate (d.size - s.size) 0)) σ) σ) σ
  | .counted => inv.string n (fun s σ =>
      if d.size < Pack.wordSize ∧ 2 ^ (8 * d.size) ≤ s.size then
        inv.refuse n "string length does not fit in given size" σ
      else k (Pack.packInt d.header d.size s.size ++ s) σ) σ
  | .terminated => inv.string n (fun s σ =>
      if s.toList.contains 0 then inv.refuse n "string contains zeros" σ
      else k (s.push 0) σ) σ
  | .padding => k (Octets.ofList [0]) σ
  | .alignment => k .empty σ
  | .nothing => k .empty σ

/-- Does an item stand for an argument? -/
def takesArgument : Pack.Item → Bool
  | .padding => false
  | .alignment => false
  | .nothing => false
  | _ => true

/-- Lays out the arguments of a format from here on; `n` is the last one that has been used. -/
def packFrom (inv : Invocation) :
    (fuel n : Nat) → Pack.Header → List UInt8 → (out : Octets) → Store → Step
  | 0, _, _, _, out, σ => returnString out σ
  | _, _, _, [], out, σ => returnString out σ
  | fuel + 1, n, h, letter :: rest, out, σ =>
    match Pack.next h out.size letter rest with
    | .error fault => refuseFormat inv fault σ
    | .ok (d, gap) =>
      let n := if takesArgument d.item then n + 1 else n
      packItem inv n d (fun s σ =>
        packFrom inv fuel n d.header d.rest
          (out ++ Octets.ofList (List.replicate gap 0) ++ s) σ) σ

def packValues (inv : Invocation) (σ : Store) : Step :=
  inv.string 1 (fun format σ =>
    packFrom inv (format.size + 1) 1 {} (formatOctets format) .empty σ) σ

/-- The most octets that a format may stand for. -/
def maxPacked : Nat := 2 ^ (31 : Nat) - 1

/-- The octets of a format from here on. -/
def packSizeFrom (inv : Invocation) :
    (fuel : Nat) → Pack.Header → List UInt8 → (total : Nat) → Store → Step
  | 0, _, _, total, σ => returnInt total σ
  | _, _, [], total, σ => returnInt total σ
  | fuel + 1, h, letter :: rest, total, σ =>
    match Pack.next h total letter rest with
    | .error fault => refuseFormat inv fault σ
    | .ok (d, gap) =>
      if d.item = .counted ∨ d.item = .terminated then
        inv.refuse 1 "variable-length format" σ
      else if maxPacked < total + gap + d.size then inv.refuse 1 "format result too large" σ
      else packSizeFrom inv fuel d.header d.rest (total + gap + d.size) σ

def packedSize (inv : Invocation) (σ : Store) : Step :=
  inv.string 1 (fun format σ =>
    packSizeFrom inv (format.size + 1) {} (formatOctets format) 0 σ) σ

/-! ### Octets to values -/

/-- The double of octets. -/
def octetsDouble (h : Pack.Header) (s : Octets) : Float :=
  let bits := Pack.ofOctets (Pack.ordered h.little s.toList)
  if s.size = 4 then (Float32.ofBits (UInt32.ofNat bits)).toFloat
  else Float.ofBits (UInt64.ofNat bits)

/-- Reads the value of an item from position `i` on: the value, if there is one, and the position
behind it. -/
def unpackItem (inv : Invocation) (d : Pack.Directive) (data : Octets) (i : Nat)
    (k : Continuation (Option Value × Nat)) (σ : Store) : Step :=
  let s := data.extract i (i + d.size)
  let integer (signed : Bool) (k : Continuation Int64) (σ : Store) : Step :=
    match Pack.unpackInt d.header signed s with
    | .ok n => k n σ
    | .error fault => refuseFormat inv fault σ
  match d.item with
  | .int => integer true (fun n σ => k (some (.int n), i + d.size) σ) σ
  | .unsigned => integer false (fun n σ => k (some (.int n), i + d.size) σ) σ
  | .single => k (some (.float (octetsDouble d.header s)), i + d.size) σ
  | .double => k (some (.float (octetsDouble d.header s)), i + d.size) σ
  | .fixed => k (some (.str s), i + d.size) σ
  | .counted => integer false (fun n σ =>
      let first := i + d.size
      let length := n.toUInt64.toNat
      if data.size < first + length then inv.refuse 2 "data string too short" σ
      else k (some (.str (data.extract first (first + length))), first + length) σ) σ
  | .terminated =>
    match (data.toList.drop i).findIdx? (· = 0) with
    | some length => k (some (.str (data.extract i (i + length))), i + length + 1) σ
    | none => inv.refuse 2 "unfinished string for format 'z'" σ
  | .padding => k (none, i + d.size) σ
  | .alignment => k (none, i) σ
  | .nothing => k (none, i) σ

/-- Reads the values of a format from position `i` on; `values` are those before, last first. -/
def unpackFrom (inv : Invocation) (data : Octets) :
    (fuel : Nat) → Pack.Header → List UInt8 → (i : Nat) → (values : List Value) → Store → Step
  | 0, _, _, i, values, σ => .done (values.reverse ++ [.int (Int64.ofNat (i + 1))]) σ
  | _, _, [], i, values, σ => .done (values.reverse ++ [.int (Int64.ofNat (i + 1))]) σ
  | fuel + 1, h, letter :: rest, i, values, σ =>
    match Pack.next h i letter rest with
    | .error fault => refuseFormat inv fault σ
    | .ok (d, gap) =>
      if data.size < i + gap + d.size then inv.refuse 2 "data string too short" σ
      else
        unpackItem inv d data (i + gap) (fun (v, i) σ =>
          unpackFrom inv data fuel d.header d.rest i (v.toList ++ values) σ) σ

def unpackValues (inv : Invocation) (σ : Store) : Step :=
  inv.string 1 (fun format σ => inv.string 2 (fun data σ => inv.intOr 3 1 (fun n σ =>
    let i := firstPosition n data.size - 1
    if data.size < i then inv.refuse 3 "initial position out of string" σ
    else unpackFrom inv data (format.size + 1) {} (formatOctets format) i [] σ) σ) σ) σ

/-! ### Functions -/

/-- A string that stands for the code of a function.  Which octets they are is up to the
interpreter; here they name the place where the store keeps the code. -/
def dump (inv : Invocation) (σ : Store) : Step :=
  inv.function 1 (fun f σ =>
    let code : Option Function :=
      match f with
      | .func ref =>
        match σ.functions[ref]? with
        | some (.script code _) => some code
        | _ => none
      | _ => none
    match code with
    | some code =>
      returnString (Octets.ofString (dumpMark ++ Nat.repr σ.dumps.size))
        { σ with dumps := σ.dumps.push code }
    | none => .raiseHere "unable to dump given function" σ) σ

end LuaConfig.Lua.Library
