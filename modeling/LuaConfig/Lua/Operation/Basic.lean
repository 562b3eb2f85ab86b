/-
Operations on values.

Where an operation is not defined for its operands, their metatables are asked for a function that
performs it.
-/
import LuaConfig.Lua.Operation.Number
import LuaConfig.Lua.Step

namespace LuaConfig.Lua

/-! ### The keys of metatables -/

namespace Event

def index : Value := .ofString "__index"
def newIndex : Value := .ofString "__newindex"
def call : Value := .ofString "__call"
def length : Value := .ofString "__len"
def equal : Value := .ofString "__eq"
def less : Value := .ofString "__lt"
def lessEqual : Value := .ofString "__le"
def concat : Value := .ofString "__concat"
def negate : Value := .ofString "__unm"
def complement : Value := .ofString "__bnot"
def name : Value := .ofString "__name"
def toString : Value := .ofString "__tostring"
def metatable : Value := .ofString "__metatable"
def pairs : Value := .ofString "__pairs"
def close : Value := .ofString "__close"

def add : Value := .ofString "__add"
def sub : Value := .ofString "__sub"
def mul : Value := .ofString "__mul"
def mod : Value := .ofString "__mod"
def pow : Value := .ofString "__pow"
def div : Value := .ofString "__div"
def idiv : Value := .ofString "__idiv"

def bitAnd : Value := .ofString "__band"
def bitOr : Value := .ofString "__bor"
def bitXor : Value := .ofString "__bxor"
def shiftLeft : Value := .ofString "__shl"
def shiftRight : Value := .ofString "__shr"

def ofArithmetic : Arithmetic → Value
  | .add => add
  | .sub => sub
  | .mul => mul
  | .mod => mod
  | .pow => pow
  | .div => div
  | .idiv => idiv
  | .unm => negate

def ofBitwise : Bitwise → Value
  | .and => bitAnd
  | .or => bitOr
  | .xor => bitXor
  | .shiftLeft => shiftLeft
  | .shiftRight => shiftRight

/-- The name of an event, without the underscores at its head. -/
def text : Value → String
  | .str s => String.ofList (s.text.toList.drop 2)
  | _ => "?"

end Event

/-- The type of a value as messages name it; a metatable may give another name. -/
def Store.typeName (σ : Store) (v : Value) : String :=
  match v with
  | .table _ =>
    match σ.metamethod v Event.name with
    | .str s => s.text
    | _ => v.typeName
  | v => v.typeName

namespace Operation

/-- What a message says about where a value comes from. -/
def info : Option Naming → String
  | some n => " (" ++ n.origin.word ++ " '" ++ n.name ++ "')"
  | none => ""

/-- Refuses to do something with a value. -/
def refuse (place : Place) (deed : String) (v : Value) (naming : Option Naming) (σ : Store) :
    Step :=
  .raiseAt place ("attempt to " ++ deed ++ " a " ++ σ.typeName v ++ " value" ++ info naming) σ

/-- The site of a call of a metamethod. -/
def eventSite (place : Place) (event : Value) : Option Site :=
  place.site (Event.text event)

/-- The function that the metatable of one of two values has for an event. -/
def binaryHandler (σ : Store) (event a b : Value) : Value :=
  match σ.metamethod a event with
  | .nil => σ.metamethod b event
  | handler => handler

/-! ### Indexing -/

/-- The longest chain of metatables that is followed. -/
def maxChain : Nat := 2000

/-- The value of a key. -/
def indexFrom (place : Place) (naming : Option Naming) (key : Value) (k : Continuation Value) :
    (fuel : Nat) → (object : Value) → Store → Step
  | 0, _, σ => .raiseAt place "'__index' chain too long; possibly a loop" σ
  | fuel + 1, object, σ =>
    let follow (handler : Value) : Step :=
      match handler with
      | .func _ => .callOne (eventSite place Event.index) handler [object, key] k σ
      | .builtin _ => .callOne (eventSite place Event.index) handler [object, key] k σ
      | handler => indexFrom place none key k fuel handler σ
    match object with
    | .table ref =>
      match σ.rawGet ref key with
      | .nil =>
        match σ.metamethod object Event.index with
        | .nil => k .nil σ
        | handler => follow handler
      | v => k v σ
    | object =>
      match σ.metamethod object Event.index with
      | .nil => refuse place "index" object naming σ
      | handler => follow handler

/-- The value of a key of an object that is called by `naming`. -/
def index (place : Place) (object key : Value) (naming : Option Naming) (k : Continuation Value)
    (σ : Store) : Step :=
  indexFrom place naming key k maxChain object σ

/-- Refuses keys that no table has. -/
def checkedSet (place : Place) (ref : Nat) (key value : Value) (k : Store → Step) (σ : Store) :
    Step :=
  match key with
  | .nil => .raiseAt place "table index is nil" σ
  | .float x =>
    if x.isNaN then .raiseAt place "table index is NaN" σ else k (σ.rawSet ref key value)
  | key => k (σ.rawSet ref key value)

def setIndexFrom (place : Place) (naming : Option Naming) (key value : Value)
    (k : Store → Step) : (fuel : Nat) → (object : Value) → Store → Step
  | 0, _, σ => .raiseAt place "'__newindex' chain too long; possibly a loop" σ
  | fuel + 1, object, σ =>
    let follow (handler : Value) : Step :=
      let site := eventSite place Event.newIndex
      match handler with
      | .func _ => .call site handler [object, key, value] (fun _ σ => k σ) σ
      | .builtin _ => .call site handler [object, key, value] (fun _ σ => k σ) σ
      | handler => setIndexFrom place none key value k fuel handler σ
    match object with
    | .table ref =>
      match (σ.table ref).metatable with
      | none => checkedSet place ref key value k σ
      | some meta_ =>
        match (σ.table meta_).getEntry Event.newIndex with
        | .nil => checkedSet place ref key value k σ
        | handler =>
          match σ.rawGet ref key with
          | .nil => follow handler
          | _ => checkedSet place ref key value k σ
    | object =>
      match σ.metamethod object Event.newIndex with
      | .nil => refuse place "index" object naming σ
      | handler => follow handler

/-- Sets the value of a key of an object that is called by `naming`. -/
def setIndex (place : Place) (object key value : Value) (naming : Option Naming)
    (k : Store → Step) (σ : Store) : Step :=
  setIndexFrom place naming key value k maxChain object σ

/-! ### Arithmetic -/

/-- The one of two operands that is not as it should be, with its name. -/
def culprit (good : Value → Bool) (a b : Value) (namingA namingB : Option Naming) :
    Value × Option Naming :=
  if good a then (b, namingB) else (a, namingA)

def isNumber : Value → Bool
  | .int _ => true
  | .float _ => true
  | _ => false

def arithmetic (place : Place) (op : Arithmetic) (a b : Value) (namingA namingB : Option Naming)
    (k : Continuation Value) (σ : Store) : Step :=
  match Number.ofValue? a, Number.ofValue? b with
  | some m, some n =>
    match Number.arithmetic op m n with
    | .ok r => k r.toValue σ
    | .error message => .raiseAt place message σ
  | _, _ =>
    let event := Event.ofArithmetic op
    match binaryHandler σ event a b with
    | .nil =>
      let (v, naming) := culprit isNumber a b namingA namingB
      refuse place "perform arithmetic on" v naming σ
    | handler => .callOne (eventSite place event) handler [a, b] k σ

/-- The integer of a number that is one. -/
def toBits? (v : Value) : Option Int64 :=
  (Number.ofValue? v).bind Number.toInt?

def bitwise (place : Place) (event : Value) (op : Int64 → Int64 → Int64) (a b : Value)
    (namingA namingB : Option Naming) (k : Continuation Value) (σ : Store) : Step :=
  match toBits? a, toBits? b with
  | some m, some n => k (.int (op m n)) σ
  | _, _ =>
    match binaryHandler σ event a b with
    | .nil =>
      if isNumber a ∧ isNumber b then
        let (_, naming) := culprit (fun v => (toBits? v).isSome) a b namingA namingB
        .raiseAt place ("number" ++ info naming ++ " has no integer representation") σ
      else
        let (v, naming) := culprit isNumber a b namingA namingB
        refuse place "perform bitwise operation on" v naming σ
    | handler => .callOne (eventSite place event) handler [a, b] k σ

/-! ### Comparison -/

/-- Refuses to compare two values. -/
def refuseOrder (place : Place) (a b : Value) (σ : Store) : Step :=
  let left := σ.typeName a
  let right := σ.typeName b
  let pair := if left = right then "two " ++ left ++ " values" else left ++ " with " ++ right
  .raiseAt place ("attempt to compare " ++ pair) σ

/-- Compares two values by the order of numbers, by that of strings or by a metamethod. -/
def order (place : Place) (event : Value) (numbers : Number → Number → Bool)
    (strings : Ordering → Bool) (a b : Value) (k : Continuation Bool) (σ : Store) : Step :=
  match a, b with
  | .str s, .str t => k (strings (s.order t)) σ
  | a, b =>
    match Number.ofValue? a, Number.ofValue? b with
    | some m, some n => k (numbers m n) σ
    | _, _ =>
      match binaryHandler σ event a b with
      | .nil => refuseOrder place a b σ
      | handler => .callOne (eventSite place event) handler [a, b] (fun v σ => k v.isTrue σ) σ

/-- Is `a` less than `b`? -/
def less (place : Place) (a b : Value) (k : Continuation Bool) (σ : Store) : Step :=
  order place Event.less Number.less (· == .lt) a b k σ

/-- Is `a` at most `b`? -/
def lessEqual (place : Place) (a b : Value) (k : Continuation Bool) (σ : Store) : Step :=
  order place Event.lessEqual Number.lessEqual (· != .gt) a b k σ

/-- Are two values equal?  Two tables may be so by a metamethod. -/
def equal (place : Place) (a b : Value) (k : Continuation Bool) (σ : Store) : Step :=
  if a.rawEq b then k true σ
  else
    match a, b with
    | .table _, .table _ =>
      match binaryHandler σ Event.equal a b with
      | .nil => k false σ
      | handler =>
        .callOne (eventSite place Event.equal) handler [a, b] (fun v σ => k v.isTrue σ) σ
    | _, _ => k false σ

def compare (place : Place) (op : Comparison) (a b : Value) (k : Continuation Value) (σ : Store) :
    Step :=
  let answer : Continuation Bool := fun b σ => k (.bool b) σ
  match op with
  | .less => less place a b answer σ
  | .lessEqual => lessEqual place a b answer σ
  | .greater => less place b a answer σ
  | .greaterEqual => lessEqual place b a answer σ
  | .equal => equal place a b answer σ
  | .notEqual => equal place a b (fun b σ => k (.bool (!b)) σ) σ

/-! ### Strings and lengths -/

/-- A string that has been made of others, for which memory is asked first. -/
def makeString (size : Nat) (make : Unit → Octets) (k : Continuation Value) (σ : Store) : Step :=
  .reserve (size + Store.stringSize) (fun σ => k (.str (make ())) σ) σ

/-- The longest string that is made without asking for memory first. -/
def maxUnreserved : Nat := 1024

def concat (place : Place) (a b : Value) (namingA namingB : Option Naming)
    (k : Continuation Value) (σ : Store) : Step :=
  match a.joinText?, b.joinText? with
  | some s, some t =>
    if s.size + t.size ≤ maxUnreserved then
      let (v, σ) := σ.newString (s ++ t)
      k v σ
    else makeString (s.size + t.size) (fun _ => s ++ t) k σ
  | left, _ =>
    match binaryHandler σ Event.concat a b with
    | .nil =>
      let (v, naming) := if left.isSome then (b, namingB) else (a, namingA)
      refuse place "concatenate" v naming σ
    | handler => .callOne (eventSite place Event.concat) handler [a, b] k σ

def length (place : Place) (a : Value) (naming : Option Naming) (k : Continuation Value)
    (σ : Store) : Step :=
  match a with
  | .str s => k (.int (Int64.ofNat s.size)) σ
  | a =>
    match σ.metamethod a Event.length with
    | .nil =>
      match a with
      | .table ref => k (.int (Int64.ofNat (σ.table ref).length)) σ
      | a => refuse place "get length of" a naming σ
    | handler => .callOne (eventSite place Event.length) handler [a, a] k σ

def unary (place : Place) (op : Unary) (a : Value) (naming : Option Naming)
    (k : Continuation Value) (σ : Store) : Step :=
  match op with
  | .not => k (.bool !a.isTrue) σ
  | .length => length place a naming k σ
  | .negate => arithmetic place .unm a a naming naming k σ
  | .complement =>
    bitwise place Event.complement (fun m _ => m ^^^ (-1)) a a naming naming k σ

def binary (place : Place) (op : Binary) (a b : Value) (namingA namingB : Option Naming)
    (k : Continuation Value) (σ : Store) : Step :=
  match op with
  | .arithmetic op => arithmetic place op a b namingA namingB k σ
  | .bitwise op =>
    bitwise place (Event.ofBitwise op) (Number.bitwise op) a b namingA namingB k σ
  | .compare op => compare place op a b k σ
  | .concat => concat place a b namingA namingB k σ

end Operation

end LuaConfig.Lua
