/-
The functions that stand in the globals.
-/
import LuaConfig.Lua.Code.Parse
import LuaConfig.Lua.Library.Argument
import LuaConfig.Lua.Projection
import LuaConfig.Lua.Translation

namespace LuaConfig.Lua

/-! ### Chunks -/

namespace ChunkName

/-- The longest name that messages show. -/
def maxLength : Nat := 59

/-- The longest text of a script that messages show. -/
def maxText : Nat := 45

/-- What messages call a chunk of the given name: the name itself behind `=`, the end of a path
behind `@`, and else the first line of a text. -/
def shown (name : Octets) : String :=
  let rest : Octets := name.extract 1 name.size
  if name.octet 0 = 61 then Octets.text (rest.extract 0 maxLength)
  else if name.octet 0 = 64 then
    if rest.size ≤ maxLength then rest.text
    else "..." ++ Octets.text (rest.extract (rest.size - (maxLength - 3)) rest.size)
  else
    let line := Octets.ofList (name.toList.takeWhile (· ≠ 10))
    if line.size = name.size ∧ name.size < maxText then "[string \"" ++ name.text ++ "\"]"
    else "[string \"" ++ Octets.text (line.extract 0 maxText) ++ "...\"]"

end ChunkName

/-- The message of a fault in the text of a chunk. -/
def SyntaxFault.message (chunk : String) : SyntaxFault → String
  | unexpected line => Place.mark (.script chunk line) ++ "syntax error"
  | tooDeep => "C stack overflow"

/-- A function whose globals are the fields of a value. -/
def Store.newChunk (σ : Store) (code : Function) (environment : Value) : Value × Store :=
  let (cell, σ) := σ.newCell environment
  σ.newFunction (.script code #[cell])

/-- A function with captured variables of its own, the first of which is given a value. -/
def Store.newLoaded (σ : Store) (code : Function) (first : Value) : Value × Store :=
  let rec cells : (count : Nat) → Value → Array Nat → Store → Array Nat × Store
    | 0, _, refs, σ => (refs, σ)
    | n + 1, v, refs, σ =>
      let (ref, σ) := σ.newCell v
      cells n .nil (refs.push ref) σ
  match code with
  | .mk _ _ _ _ captures _ =>
    let (refs, σ) := cells captures.length first #[] σ
    σ.newFunction (.script code refs)

namespace Library

/-- The code that a string stands for, or why it stands for none. -/
def loadCode (σ : Store) (s : Octets) : Except String Function :=
  let mark := Octets.ofString dumpMark
  if s.size < mark.size then .error "truncated chunk"
  else if !s.matchesAt mark 0 then .error "not a binary chunk"
  else
    match ((Octets.text (s.extract mark.size s.size)).toNat?).bind (σ.dumps[·]?) with
    | some code => .ok code
    | none => .error "truncated chunk"

/-- Makes a function of a text, or of a string that stands for a code, or says why there is none. -/
def loadText (source chunk : Octets) (mode : Octets) (environment : Value) (σ : Store) : Step :=
  let (letter, kind) : UInt8 × String := if source.octet 0 = 27 then (98, "binary") else (116, "text")
  let shown := ChunkName.shown chunk
  if !mode.toList.contains letter then
    let message := "attempt to load a " ++ kind ++ " chunk (mode is '" ++ mode.text ++ "')"
    .done [.nil, .ofString message] σ
  else if source.octet 0 = 27 then
    match loadCode σ source with
    | .ok code =>
      let (f, σ) := σ.newLoaded code environment
      .done [f] σ
    | .error why => .done [.nil, .ofString (shown ++ ": bad binary format (" ++ why ++ ")")] σ
  else
    match Function.ofText shown source with
    | .ok code =>
      let (f, σ) := σ.newChunk code environment
      .done [f] σ
    | .error fault => .done [.nil, .ofString (fault.message shown)] σ

/-- Asks a reader for a text, piece by piece; what has been read stands in the first slot. -/
def loadPieces (reader : Value) (finish : Continuation Octets) (σ : Store) : Step :=
  let again : Store → Step := fun σ =>
    .read reader (fun vs σ =>
      let read := match σ.slot 0 with
        | .str s => s
        | _ => .empty
      match vs.headD .nil with
      | .nil => .leave (finish read) σ
      | v =>
        match v.joinText? with
        | none => .locate 1 (fun site σ =>
            let message := Site.mark site ++ "reader function must return a string"
            .done [.nil, .ofString message] σ) σ
        | some piece =>
          if piece.isEmpty then .leave (finish read) σ
          else .jump .again (σ.freshSlot 0 (.str (read ++ piece)))) (σ.charge 1)
  .enter [(.again, again)] again { σ with slots := #[.direct (.str .empty)] }

def load (inv : Invocation) (σ : Store) : Step :=
  inv.stringOr 3 (Octets.ofString "bt") (fun mode σ =>
    let environment := (inv.arg? 4).getD (.table σ.globals)
    match (inv.arg 1).joinText? with
    | some source => inv.stringOr 2 source (fun chunk σ =>
        loadText source chunk mode environment σ) σ
    | none => inv.stringOr 2 (Octets.ofString "=(load)") (fun chunk σ =>
        inv.function 1 (fun reader σ =>
          loadPieces reader (fun source σ => loadText source chunk mode environment σ) σ) σ) σ) σ

/-! ### Errors -/

/-- Raises a value; a string gets the place of the call at a level in front. -/
def raiseValue (v : Value) (level : Int64) (σ : Store) : Step :=
  match v with
  | .str s =>
    if 0 < level then
      .locate level.toInt.toNat (fun site σ =>
        .fail (.raised (.str (Octets.ofString (Site.mark site) ++ s))) σ) σ
    else .fail (.raised v) σ
  | v => .fail (.raised v) σ

def assert (inv : Invocation) (σ : Store) : Step :=
  if (inv.arg 1).isTrue then .done inv.args σ
  else
    inv.value 1 (fun _ σ =>
      raiseValue ((inv.arg? 2).getD (.ofString "assertion failed!")) 1 σ) σ

/-- Returns what a guarded call has come to. -/
def returnOutcome : Continuation (Except Value (List Value)) := fun outcome σ =>
  match outcome with
  | .ok vs => .done (.bool true :: vs) σ
  | .error v => .done [.bool false, v] σ

def pcall (inv : Invocation) (σ : Store) : Step :=
  match inv.args with
  | [] => .refuseAttempt "not enough arguments to pcall" σ
  | f :: args => .attempt none f args returnOutcome σ

def xpcall (inv : Invocation) (σ : Store) : Step :=
  match inv.args with
  | f :: handler :: args => .attempt (some handler) f args returnOutcome σ
  | _ => .refuseAttempt "not enough arguments to xpcall" σ

/-! ### Walks -/

def next (inv : Invocation) (σ : Store) : Step :=
  inv.table 1 (fun ref σ =>
    match (σ.table ref).next? (inv.arg 2) with
    | some (some (key, v)) => .done [key, v] σ
    | some none => .done [.nil] σ
    | none => .raise "invalid key to 'next'" σ) σ

def nextPosition (inv : Invocation) (σ : Store) : Step :=
  inv.int 2 (fun i σ =>
    let key := Value.int (i + 1)
    Operation.index .builtin (inv.arg 1) key none (fun v σ =>
      match v with
      | .nil => .done [.nil] σ
      | v => .done [key, v] σ) σ) σ

def pairs (inv : Invocation) (σ : Store) : Step :=
  inv.value 1 (fun v σ =>
    match σ.metamethod v Event.pairs with
    | .nil => .done [.builtin (.base .next), v, .nil] σ
    | handler => .call none handler [v] (fun vs σ =>
        .done [vs.headD .nil, vs.tail.headD .nil, vs.tail.tail.headD .nil] σ) σ) σ

/-! ### Values -/

def getmetatable (inv : Invocation) (σ : Store) : Step :=
  inv.value 1 (fun v σ =>
    match σ.metatable? v with
    | none => .done [.nil] σ
    | some ref =>
      match (σ.table ref).getEntry Event.metatable with
      | .nil => .done [.table ref] σ
      | lock => .done [lock] σ) σ

def setmetatable (inv : Invocation) (σ : Store) : Step :=
  inv.table 1 (fun ref σ =>
    let set (metatable : Option Nat) (σ : Store) : Step :=
      match σ.metamethod (.table ref) Event.metatable with
      | .nil => .done [.table ref] (σ.setMetatable ref metatable)
      | _ => .raiseHere "cannot change a protected metatable" σ
    match inv.arg? 2 with
    | some .nil => set none σ
    | some (.table metatable) => set (some metatable) σ
    | _ => inv.refuseType 2 "nil or table" σ) σ

def rawset (inv : Invocation) (σ : Store) : Step :=
  inv.table 1 (fun ref σ => inv.value 2 (fun key σ => inv.value 3 (fun v σ =>
    Operation.checkedSet .builtin ref key v (fun σ => .done [.table ref] σ) σ) σ) σ) σ

def rawlen (inv : Invocation) (σ : Store) : Step :=
  match inv.arg 1 with
  | .table ref => returnInt (σ.table ref).length σ
  | .str s => returnInt s.size σ
  | _ => inv.refuseType 1 "table or string" σ

def select (inv : Invocation) (σ : Store) : Step :=
  let rest := inv.args.tail
  let byIndex (σ : Store) : Step :=
    inv.int 1 (fun i σ =>
      let i := i.toInt
      let first := if i < 0 then (rest.length : Int) + i + 1 else i
      if first < 1 then inv.refuse 1 "index out of range" σ
      else .done (rest.drop (first - 1).toNat) σ) σ
  match inv.arg 1 with
  | .str s => if s.octet 0 = 35 then returnInt rest.length σ else byIndex σ
  | _ => byIndex σ

def tonumber (inv : Invocation) (σ : Store) : Step :=
  match inv.arg 2 with
  | .nil =>
    match inv.arg 1 with
    | .int n => .done [.int n] σ
    | .float x => .done [.float x] σ
    | .str s => .done [((Numeral.ofOctets? s).map Number.toValue).getD .nil] σ
    | _ => inv.value 1 (fun _ σ => .done [.nil] σ) σ
  | _ => inv.int 2 (fun base σ =>
      match inv.arg 1 with
      | .str s =>
        if 2 ≤ base ∧ base ≤ 36 then
          let n := Numeral.inBase? base.toInt.toNat (Numeral.chars s.toList)
          .done [(n.map Value.int).getD .nil] σ
        else inv.refuse 2 "base out of range" σ
      | _ => inv.refuseType 1 "string" σ) σ

/-! ### The collector -/

/-- A parameter of the collector as it is kept: in steps of four, and in an octet. -/
def keptParameter (n : Int64) : Nat := (n.toInt32.toInt.tdiv 4 % 256).toNat * 4

/-- What the collector is told, and what it answers. -/
inductive CollectorOption where
  | collect | stop | restart | count | step | isrunning | setpause | setstepmul | generational
  | incremental
  deriving DecidableEq

namespace CollectorOption

def table : List (String × CollectorOption) :=
  [("collect", collect), ("stop", stop), ("restart", restart), ("count", count), ("step", step),
   ("isrunning", isrunning), ("setpause", setpause), ("setstepmul", setstepmul),
   ("generational", generational), ("incremental", incremental)]

end CollectorOption

/-- Tells the collector something. -/
def tell (change : Collector → Collector) (answer : Value) (σ : Store) : Step :=
  .done [answer] { σ with collector := change σ.collector }

/-- Changes the way in which the collector works. -/
def changeMode (generational : Bool) (change : Collector → Collector) (σ : Store) : Step :=
  let before := if σ.collector.generational then "generational" else "incremental"
  tell (fun c => { change c with generational := generational, restarted := none })
    (.ofString before) σ

/-- A parameter of the collector, which keeps its value where none is given. -/
def newParameter (given : Int64) (old : Nat) : Nat :=
  if given = 0 then old else keptParameter given

/-- What is told to the collector, or asked of it.  A collection makes all that is owed, so that
none is due at once behind it; while a script runs nothing comes of it else. -/
def collectorAnswer (inv : Invocation) (σ : Store) : CollectorOption → Step
  | .collect => tell ({ · with restarted := none }) (.int 0) σ
  | .stop => tell ({ · with running := false }) (.int 0) σ
  | .restart => tell ({ · with running := true, restarted := some σ.allocated }) (.int 0) σ
  | .count => .measure (fun n σ => .done [.float (Decimal.nearest false n 1024)] σ) σ
  | .step => inv.intOr 2 0 (fun _ σ => .measure (fun _ σ =>
      -- how much is in use decides whether a step is a whole collection, as it is here
      tell ({ · with restarted := none }) (.bool true) σ) σ) σ
  | .isrunning => .done [.bool σ.collector.running] σ
  | .setpause => inv.intOr 2 0 (fun n σ =>
      tell ({ · with pause := keptParameter n }) (.int (Int64.ofNat σ.collector.pause)) σ) σ
  | .setstepmul => inv.intOr 2 0 (fun n σ =>
      tell ({ · with stepFactor := keptParameter n })
        (.int (Int64.ofNat σ.collector.stepFactor)) σ) σ
  | .generational => inv.intOr 2 0 (fun _ σ => inv.intOr 3 0 (fun _ σ =>
      changeMode true id σ) σ) σ
  | .incremental => inv.intOr 2 0 (fun pause σ => inv.intOr 3 0 (fun factor σ =>
      inv.intOr 4 0 (fun _ σ => changeMode false (fun c => { c with
        pause := newParameter pause c.pause
        stepFactor := newParameter factor c.stepFactor }) σ) σ) σ) σ

/-- What is asked of the collector.  In a finalizer it has no answer. -/
def collectgarbage (inv : Invocation) (σ : Store) : Step :=
  inv.stringOr 1 (Octets.ofString "collect") (fun s σ =>
    match CollectorOption.table.lookup s.text with
    | some option =>
      if σ.collector.finalizing then .done [.nil] σ else collectorAnswer inv σ option
    | none => inv.refuse 1 ("invalid option '" ++ s.text ++ "'") σ) σ

/-! ### The host's functions -/

/-- Prints a line.  Metatables have no say in it. -/
def print (inv : Invocation) (σ : Store) : Step :=
  let line := "\t".intercalate (inv.args.map Value.printed)
  .done [] { σ with prints := line :: σ.prints }

/-- The translation of the first argument. -/
def chooseTranslation (locale : Octets) (inv : Invocation) (σ : Store) : Step :=
  .done [σ.translate locale (inv.arg 1)] σ

def baseFunction (f : BaseFunction) (inv : Invocation) (σ : Store) : Step :=
  match f with
  | .assert => assert inv σ
  | .collectgarbage => collectgarbage inv σ
  | .error => inv.intOr 2 1 (fun level σ => raiseValue (inv.arg 1) level σ) σ
  | .getmetatable => getmetatable inv σ
  | .ipairs => inv.value 1 (fun v σ => .done [.builtin .nextPosition, v, .int 0] σ) σ
  | .load => load inv σ
  | .next => next inv σ
  | .pairs => pairs inv σ
  | .pcall => pcall inv σ
  | .print => print inv σ
  | .rawequal => inv.value 1 (fun a σ => inv.value 2 (fun b σ =>
      .done [.bool (a.rawEq b)] σ) σ) σ
  | .rawget => inv.table 1 (fun ref σ => inv.value 2 (fun key σ =>
      .done [σ.rawGet ref key] σ) σ) σ
  | .rawlen => rawlen inv σ
  | .rawset => rawset inv σ
  | .select => select inv σ
  | .setmetatable => setmetatable inv σ
  | .tonumber => tonumber inv σ
  | .tostring => inv.value 1 (fun v σ => text v (fun s σ => returnString s σ) σ) σ
  | .type => inv.value 1 (fun v σ => .done [.ofString v.typeName] σ) σ
  | .warn => inv.string 1 (fun _ σ => .done [] σ) σ
  | .xpcall => xpcall inv σ

end Library

end LuaConfig.Lua
