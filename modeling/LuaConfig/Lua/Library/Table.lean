/-
The library of tables.

Sorting exchanges elements around a pivot in the middle; the order in which elements are compared,
and the order in which equal elements come out, follow from that.
-/
import LuaConfig.Lua.Library.Argument

namespace LuaConfig.Lua.Library

-- powers are the built-in ones
attribute [local instance (2000)] instPowNat

/-- The element at a position. -/
def element (ref : Nat) (i : Int) (k : Continuation Value) (σ : Store) : Step :=
  Operation.index .builtin (.table ref) (.int (Int64.ofInt i)) none k σ

def setElement (ref : Nat) (i : Int) (v : Value) (k : Store → Step) (σ : Store) : Step :=
  Operation.setIndex .builtin (.table ref) (.int (Int64.ofInt i)) v none k σ

/-- The length of a table, for which its metatable may be asked. -/
def lengthOf (ref : Nat) (k : Continuation Int) (σ : Store) : Step :=
  Operation.length .builtin (.table ref) none (fun v σ =>
    match v.number?.bind Number.toInt? with
    | some n => k n.toInt σ
    | none => .raiseHere "object length is not an integer" σ) σ

/-- A table argument and its length. -/
def listArgument (inv : Invocation) (k : Nat → Int → Store → Step) (σ : Store) : Step :=
  inv.table 1 (fun ref σ => lengthOf ref (fun n σ => k ref n σ) σ) σ

/-! ### Single elements -/

/-- Copies `count` elements, one after the other: from `source` to `target`, each place of both
moving by `by_`. -/
def copyElements (sourceRef targetRef : Nat) (by_ : Int) :
    (count : Nat) → (source target : Int) → (k : Store → Step) → Store → Step
  | 0, _, _, k, σ => k σ
  | count + 1, source, target, k, σ =>
    element sourceRef source (fun v σ => setElement targetRef target v (fun σ =>
      copyElements sourceRef targetRef by_ count (source + by_) (target + by_) k σ) σ) σ

def insert (inv : Invocation) (σ : Store) : Step :=
  listArgument inv (fun ref n σ =>
    match inv.args with
    | [_, v] => setElement ref (n + 1) v (fun σ => .done [] σ) σ
    | [_, _, v] => inv.int 2 (fun i σ =>
        let i := i.toInt
        if i < 1 ∨ n + 1 < i then inv.refuse 2 "position out of bounds" σ
        else
          copyElements ref ref (-1) (n + 1 - i).toNat n (n + 1) (fun σ =>
            setElement ref i v (fun σ => .done [] σ) σ) σ) σ
    | _ => .raiseHere "wrong number of arguments to 'insert'" σ) σ

def remove (inv : Invocation) (σ : Store) : Step :=
  listArgument inv (fun ref n σ =>
    inv.intOr 2 (Int64.ofInt n) (fun i σ =>
      let i := i.toInt
      if inv.args.length ≠ 1 ∧ i ≠ n ∧ (i < 1 ∨ n + 1 < i) then
        inv.refuse 2 "position out of bounds" σ
      else
        element ref i (fun v σ =>
          copyElements ref ref 1 (n - i).toNat (i + 1) i (fun σ =>
            setElement ref (max i n) .nil (fun σ => .done [v] σ) σ) σ) σ) σ) σ

/-- Moves elements of one table to a place in another one, backward where the places overlap. -/
def moveElements (inv : Invocation) (σ : Store) : Step :=
  inv.table 1 (fun source σ => inv.int 2 (fun f σ => inv.int 3 (fun e σ => inv.int 4 (fun t σ =>
    let target : Store → (Nat → Store → Step) → Step := fun σ k =>
      match inv.arg 5 with
      | .nil => k source σ
      | _ => inv.table 5 k σ
    target σ (fun target σ =>
      let f := f.toInt
      let e := e.toInt
      let t := t.toInt
      let count := (e - f + 1).toNat
      let finish : Store → Step := fun σ => .done [.table target] σ
      if e < f then finish σ
      else if !(0 < f ∨ e < 2 ^ (63 : Nat) - 1 + f) then inv.refuse 3 "too many elements to move" σ
      else if 2 ^ (63 : Nat) - 1 - (e - f) < t then inv.refuse 4 "destination wrap around" σ
      else if e < t ∨ t ≤ f ∨ target ≠ source then copyElements source target 1 count f t finish σ
      else copyElements source target (-1) count e (t + (e - f)) finish σ)) σ) σ) σ) σ

/-! ### Lists of values -/

/-- The elements from position `i` on, in front of which `done` have been read, newest first. -/
def elements (ref : Nat) :
    (count : Nat) → (i : Int) → List Value → Continuation (List Value) → Store → Step
  | 0, _, done, k, σ => k done.reverse σ
  | count + 1, i, done, k, σ =>
    element ref i (fun v σ => elements ref count (i + 1) (v :: done) k σ) σ

/-- The largest number of values that are returned at once. -/
def maxResults : Int := 1000000

def unpack (inv : Invocation) (σ : Store) : Step :=
  let withList (ref : Nat) (n : Int64) (σ : Store) : Step :=
    inv.intOr 2 1 (fun i σ =>
      let last : Continuation Int64 → Store → Step := fun k σ =>
        match inv.arg 3 with
        | .nil => k n σ
        | _ => inv.int 3 k σ
      last (fun j σ =>
        let count := j.toInt - i.toInt + 1
        if count ≤ 0 then .done [] σ
        else if maxResults ≤ count then .raiseHere "too many results to unpack" σ
        else elements ref count.toNat i.toInt [] (fun vs σ => .done vs σ) σ) σ) σ
  match inv.arg 1 with
  | .table ref =>
    match inv.arg 3 with
    | .nil => lengthOf ref (fun n σ => withList ref (Int64.ofInt n) σ) σ
    | _ => withList ref 0 σ
  | v =>
    match inv.arg 3 with
    | .nil => Operation.length .builtin v none (fun _ σ => .done [] σ) σ
    | _ => Operation.index .builtin v (.int 1) none (fun _ σ => .done [] σ) σ

def pack (inv : Invocation) (σ : Store) : Step :=
  let t : Table := { positions := inv.args.toArray }
  let (v, σ) := σ.newTable (t.setField "n" (.int (Int64.ofNat inv.args.length)))
  .done [v] σ

/-- Joins the elements from position `i` on. -/
def concatFrom (ref : Nat) (separator : Octets) :
    (count : Nat) → (i : Int) → (out : Octets) → Store → Step
  | 0, _, out, σ => returnString out σ
  | count + 1, i, out, σ =>
    element ref i (fun v σ =>
      match v.joinText? with
      | some s =>
        let out := out ++ s
        concatFrom ref separator count (i + 1) (if count = 0 then out else out ++ separator) σ
      | none =>
        .raiseHere ("invalid value (" ++ σ.typeName v ++ ") at index " ++ toString i ++
          " in table for 'concat'") σ) σ

def concat (inv : Invocation) (σ : Store) : Step :=
  listArgument inv (fun ref n σ =>
    inv.stringOr 2 .empty (fun separator σ => inv.intOr 3 1 (fun i σ =>
      inv.intOr 4 (Int64.ofInt n) (fun j σ =>
        concatFrom ref separator (j.toInt - i.toInt + 1).toNat i.toInt .empty σ) σ) σ) σ) σ

/-! ### Sorting -/

/-- A list that is being sorted, and the function that compares its elements. -/
structure Sorting where
  ref : Nat
  order : Option Value

namespace Sorting

/-- Does `a` come before `b`? -/
def before (s : Sorting) (a b : Value) (k : Continuation Bool) (σ : Store) : Step :=
  match s.order with
  | some f => .callOne none f [a, b] (fun v σ => k v.isTrue σ) σ
  | none => Operation.less .builtin a b k σ

/-- Exchanges two elements that have been read. -/
def exchange (s : Sorting) (i : Int) (a : Value) (j : Int) (b : Value) (k : Store → Step)
    (σ : Store) : Step :=
  setElement s.ref i b (fun σ => setElement s.ref j a k σ) σ

/-- Puts the elements at two positions, `i` before `j`, into order. -/
def settle (s : Sorting) (i j : Int) (k : Store → Step) (σ : Store) : Step :=
  element s.ref i (fun a σ => element s.ref j (fun b σ =>
    s.before b a (fun wrong σ => if wrong then s.exchange i a j b k σ else k σ) σ) σ) σ

/-- Raised where a function cannot be an order. -/
def noOrder (σ : Store) : Step := .raiseHere "invalid order function for sorting" σ

/-- The first position behind `i` whose element does not come before the pivot. -/
def ascend (s : Sorting) (pivot : Value) (last : Int) (k : Int → Value → Store → Step) :
    (fuel : Nat) → (i : Int) → Store → Step
  | 0, _, σ => noOrder σ
  | fuel + 1, i, σ =>
    element s.ref (i + 1) (fun v σ =>
      s.before v pivot (fun goesOn σ =>
        if !goesOn then k (i + 1) v σ
        else if i + 1 = last then noOrder σ
        else ascend s pivot last k fuel (i + 1) σ) σ) σ

/-- The last position before `j` whose element the pivot does not come before. -/
def descend (s : Sorting) (pivot : Value) (first : Int) (k : Int → Value → Store → Step) :
    (fuel : Nat) → (j : Int) → Store → Step
  | 0, _, σ => noOrder σ
  | fuel + 1, j, σ =>
    element s.ref (j - 1) (fun v σ =>
      s.before pivot v (fun goesOn σ =>
        if !goesOn then k (j - 1) v σ
        else if j - 1 < first then noOrder σ
        else descend s pivot first k fuel (j - 1) σ) σ) σ

/-- Exchanges elements from both ends until the positions meet; the pivot stands before `up`. -/
def partition (s : Sorting) (pivot : Value) (up : Int) (k : Continuation Int) :
    (fuel : Nat) → (i j : Int) → Store → Step
  | 0, _, _, σ => noOrder σ
  | fuel + 1, i, j, σ =>
    s.ascend pivot (up - 1) (fun i a σ =>
      s.descend pivot i (fun j b σ =>
        if j < i then s.exchange (up - 1) pivot i a (k i) σ
        else s.exchange i a j b (fun σ => partition s pivot up k fuel i j σ) σ) (fuel + 1) j σ)
      (fuel + 1) i σ

/-- Sorts the elements from `lo` to `up`, the shorter part of them first. -/
def sort (s : Sorting) : (fuel : Nat) → (lo up : Int) → (k : Store → Step) → Store → Step
  | 0, _, _, k, σ => k σ
  | fuel + 1, lo, up, k, σ =>
    if up ≤ lo then k σ
    else
      s.settle lo up (fun σ =>
        if up - lo = 1 then k σ
        else
          let p := (lo + up) / 2
          let afterMiddle : Store → Step := fun σ =>
            if up - lo = 2 then k σ
            else
              element s.ref p (fun pivot σ => element s.ref (up - 1) (fun b σ =>
                s.exchange p pivot (up - 1) b (fun σ =>
                  s.partition pivot up (fun p σ =>
                    if p - lo < up - p then
                      sort s fuel lo (p - 1) (fun σ => sort s fuel (p + 1) up k σ) σ
                    else
                      sort s fuel (p + 1) up (fun σ => sort s fuel lo (p - 1) k σ) σ)
                    (up - lo + 2).toNat lo (up - 1) σ) σ) σ) σ
          element s.ref p (fun m σ => element s.ref lo (fun a σ =>
            s.before m a (fun wrong σ =>
              if wrong then s.exchange p m lo a afterMiddle σ
              else s.settle p up afterMiddle σ) σ) σ) σ) σ

end Sorting

def sortList (inv : Invocation) (σ : Store) : Step :=
  listArgument inv (fun ref n σ =>
    let run (order : Option Value) (σ : Store) : Step :=
      (Sorting.mk ref order).sort (n.toNat + 1) 1 n (fun σ => .done [] σ) σ
    if n ≤ 1 then .done [] σ
    else
      match inv.arg 2 with
      | .nil => run none σ
      | _ => inv.function 2 (fun f σ => run (some f) σ) σ) σ

def tableFunction (f : TableFunction) (inv : Invocation) (σ : Store) : Step :=
  match f with
  | .concat => concat inv σ
  | .insert => insert inv σ
  | .move => moveElements inv σ
  | .pack => pack inv σ
  | .remove => remove inv σ
  | .sort => sortList inv σ
  | .unpack => unpack inv σ

end LuaConfig.Lua.Library
