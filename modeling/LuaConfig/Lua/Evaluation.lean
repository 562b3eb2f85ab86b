/-
What the code of a function does.

Each piece of code becomes a computation by recursion on the code: an expression hands its value on
to a continuation, a statement goes on with what follows it.  Loops do not recurse.  They open a
scope, and the end of a round asks for the next one; what a loop has to remember between rounds
stands in the slots of the function.
-/
import LuaConfig.Lua.Operation.Basic

namespace LuaConfig.Lua

/-- What a statement needs of the function around it: where a `break` leads. -/
structure Surroundings where
  act : Activation
  onBreak : Store → Step

/-- The surroundings inside a scope that a `break` has to close. -/
def Surroundings.inScope (sur : Surroundings) : Surroundings :=
  { sur with onBreak := fun σ => .leave sur.onBreak σ }

/-- Runs what is inside the scope of a value that is closed when the scope is left.  False values
are not closed. -/
def Surroundings.closing (sur : Surroundings) (line : Nat) (name : String) (v : Value)
    (inside : Surroundings → (k : Store → Step) → Store → Step) (k : Store → Step) (σ : Store) :
    Step :=
  let place : Place := .script sur.act.chunk line
  if !v.isTrue then inside sur k σ
  else if σ.metamethod v Event.close = .nil then
    .raiseAt place ("variable '" ++ name ++ "' got a non-closable value") σ
  else
    .enterClosing (place.site "close") v (inside sur.inScope fun σ => .leave k σ) σ

/-- A place of an assignment, ready to take a value. -/
inductive Target where
  | slot (i : Nat)
  | upvalue (i : Nat)
  | field (object key : Value) (naming : Option Naming)

/-- Gives a target its value. -/
def Target.assign (act : Activation) (line : Nat) (v : Value) (k : Store → Step) (σ : Store) :
    Target → Step
  | slot i => k (σ.setSlot i v)
  | upvalue i => k (σ.setUpvalue act i v)
  | field object key naming =>
    Operation.setIndex (.script act.chunk line) object key v naming k (σ.charge 1)

/-- Gives values to targets, the last one first; targets without a value become nil. -/
def Target.assignAll (act : Activation) (line : Nat) :
    List Target → List Value → (k : Store → Step) → Store → Step
  | [], _, k, σ => k σ
  | t :: ts, vs, k, σ =>
    assignAll act line ts vs.tail (fun σ => t.assign act line (vs.headD .nil) k σ) σ

/-- The items of a table that is being made: the entries so far, and the values that still have to
be put into their positions, newest first. -/
structure Making where
  ref : Nat
  values : List Value := []

/-- Fills the positions. -/
def Making.fill (making : Making) (σ : Store) : Store :=
  if making.values.isEmpty then σ
  else
    (σ.modifyTable making.ref (·.setPositions making.values.reverse)).allocate
      (Store.valueSize * making.values.length)

/-! ### Loops -/

/-- What messages call the values that a loop over calls of a function holds. -/
def loopStateName : String := "(for state)"

/-- The rounds of a loop over integers after its first one; nothing if there is none at all. -/
def roundsAfterFirst? (start limit step : Int64) : Option UInt64 :=
  if 0 < step then
    if limit < start then none
    else some ((limit.toUInt64 - start.toUInt64) / step.toUInt64)
  else
    if start < limit then none
    else some ((start.toUInt64 - limit.toUInt64) / ((0 - (step + 1)).toUInt64 + 1))

/-- The integer limit that serves for a limit that is a double, for a step in the given direction:
the nearest integer on the near side, or the first or last one there is. -/
def clipLimit (x : Float) (upward : Bool) : Option Int64 :=
  let rounded := if upward then x.floor else x.ceil
  match Value.floatToInt? rounded with
  | some n => some n
  | none =>
    if x.isNaN then none
    else if 0 < x then if upward then some Int64.maxValue else none
    else if upward then none else some Int64.minValue

/-- How a loop over numbers goes. -/
inductive Rounds where
  | none
  | ints (start step : Int64) (more : UInt64)
  | floats (start limit step : Float)

/-- What is wrong with a loop over numbers. -/
def forMessage (what : String) (v : Value) : String :=
  "bad 'for' " ++ what ++ " (number expected, got " ++ v.typeName ++ ")"

/-- Plans a loop.  It runs over integers where its start and its step are integers. -/
def planRounds (start limit step : Value) : Except String Rounds :=
  match start, step with
  | .int a, .int s =>
    if s = 0 then .error "'for' step is zero"
    else
      match limit.number? with
      | Option.none => .error (forMessage "limit" limit)
      | some n =>
        let last := match n with
          | .int n => some n
          | .float x => clipLimit x (0 < s)
        match last.bind fun l => roundsAfterFirst? a l s with
        | some more => .ok (.ints a s more)
        | Option.none => .ok .none
  | start, step =>
    match limit.number?, step.number?, start.number? with
    | Option.none, _, _ => .error (forMessage "limit" limit)
    | _, Option.none, _ => .error (forMessage "step" step)
    | _, _, Option.none => .error (forMessage "initial value" start)
    | some l, some s, some a =>
      let l := l.toFloat
      let s := s.toFloat
      let a := a.toFloat
      if s == 0 then .error "'for' step is zero"
      else if if 0 < s then l < a else a < l then .ok .none
      else .ok (.floats a l s)

/-! ### Code -/

mutual

/-- The value of an expression; of several values the first one. -/
def Expr.eval (act : Activation) : Expr → Continuation Value → Store → Step
  | .const v, k, σ => k v σ
  | .varargs, k, σ => k (act.varargs.headD .nil) σ
  | .var i _, k, σ => k (σ.slot i) σ
  | .upvalue i _, k, σ => k (σ.upvalue act i) σ
  | .index object key line, k, σ =>
    object.eval act (fun o σ => key.eval act (fun v σ =>
      Operation.index (.script act.chunk line) o v object.naming? k (σ.charge 1)) σ) σ
  | .call f args site, k, σ =>
    f.eval act (fun f σ => Expr.evalList act args (fun vs σ =>
      .callOne site f vs k (σ.charge (vs.length + 1))) σ) σ
  | .method object name line args site, k, σ =>
    object.eval act (fun o σ =>
      Operation.index (.script act.chunk line) o (.str name) object.naming? (fun f σ =>
        Expr.evalList act args (fun vs σ =>
          .callOne site f (o :: vs) k (σ.charge (vs.length + 1))) σ) (σ.charge 1)) σ
  | .function code, k, σ =>
    let (f, σ) := σ.newClosure act code
    k f (σ.charge 1)
  | .unary op a line, k, σ =>
    a.eval act (fun v σ =>
      Operation.unary (.script act.chunk line) op v a.naming? k (σ.charge 1)) σ
  | .binary op (.var i name) b line, k, σ =>
    b.eval act (fun w σ =>
      Operation.binary (.script act.chunk line) op (σ.slot i) w (Expr.var i name).naming? b.naming?
        k (σ.charge 1)) σ
  | .binary op a b line, k, σ =>
    a.eval act (fun v σ => b.eval act (fun w σ =>
      Operation.binary (.script act.chunk line) op v w a.naming? b.naming? k (σ.charge 1)) σ) σ
  | .and a b, k, σ =>
    a.eval act (fun v σ => if v.isTrue then b.eval act k σ else k v σ) (σ.charge 1)
  | .or a b, k, σ =>
    a.eval act (fun v σ => if v.isTrue then k v σ else b.eval act k σ) (σ.charge 1)
  | .first e, k, σ => e.eval act k σ
  | .table items _, k, σ =>
    let (t, σ) := σ.newTable {}
    Expr.evalItems act items ⟨σ.tables.size - 1, []⟩ (fun _ σ => k t σ) (σ.charge 1)
termination_by e => 2 * sizeOf e
decreasing_by
  all_goals simp only [Expr.index.sizeOf_spec, Expr.call.sizeOf_spec, Expr.method.sizeOf_spec,
    Expr.unary.sizeOf_spec, Expr.binary.sizeOf_spec, Expr.and.sizeOf_spec, Expr.or.sizeOf_spec,
    Expr.first.sizeOf_spec, Expr.table.sizeOf_spec]
  all_goals omega

/-- All values of an expression. -/
def Expr.evalMulti (act : Activation) : Expr → Continuation (List Value) → Store → Step
  | .varargs, k, σ => k act.varargs (σ.charge 1)
  | .call f args site, k, σ =>
    f.eval act (fun f σ => Expr.evalList act args (fun vs σ =>
      .call site f vs k (σ.charge (vs.length + 1))) σ) σ
  | .method object name line args site, k, σ =>
    object.eval act (fun o σ =>
      Operation.index (.script act.chunk line) o (.str name) object.naming? (fun f σ =>
        Expr.evalList act args (fun vs σ =>
          .call site f (o :: vs) k (σ.charge (vs.length + 1))) σ) (σ.charge 1)) σ
  | e, k, σ => e.eval act (fun v σ => k [v] σ) σ
termination_by e => 2 * sizeOf e + 1
decreasing_by
  all_goals try simp only [Expr.call.sizeOf_spec, Expr.method.sizeOf_spec]
  all_goals omega

/-- The values of expressions, all those of the last one included. -/
def Expr.evalList (act : Activation) : List Expr → Continuation (List Value) → Store → Step
  | [], k, σ => k [] σ
  | [e], k, σ => e.evalMulti act k σ
  | e :: es, k, σ =>
    e.eval act (fun v σ => Expr.evalList act es (fun vs σ => k (v :: vs) σ) σ) σ
termination_by es => 2 * sizeOf es
decreasing_by
  all_goals simp only [List.cons.sizeOf_spec]
  all_goals omega

/-- Puts the items of a constructor into its table.  The positions are filled at the end. -/
def Expr.evalItems (act : Activation) : List Item → Making → Continuation Unit → Store → Step
  | [], making, k, σ => k () (making.fill σ)
  | [.positional e], making, k, σ =>
    e.evalMulti act (fun vs σ =>
      k () ({ making with values := vs.reverse ++ making.values }.fill σ)) σ
  | .positional e :: rest, making, k, σ =>
    e.eval act (fun v σ =>
      Expr.evalItems act rest { making with values := v :: making.values } k σ) (σ.charge 1)
  | .keyed key value line :: rest, making, k, σ =>
    key.eval act (fun kv σ => value.eval act (fun v σ =>
      Operation.checkedSet (.script act.chunk line) making.ref kv v
        (fun σ => Expr.evalItems act rest making k σ) (σ.charge 1)) σ) σ
termination_by items => 2 * sizeOf items
decreasing_by
  all_goals simp only [List.cons.sizeOf_spec, Item.positional.sizeOf_spec, Item.keyed.sizeOf_spec]
  all_goals omega

end

/-- Makes an expression ready to take a value. -/
def Expr.evalTarget (act : Activation) : Expr → Continuation Target → Store → Step
  | .var i _, k, σ => k (.slot i) σ
  | .upvalue i _, k, σ => k (.upvalue i) σ
  | .index object key _, k, σ =>
    object.eval act (fun o σ => key.eval act (fun v σ => k (.field o v object.naming?) σ) σ) σ
  | e, k, σ => e.eval act (fun v σ => k (.field v .nil none) σ) σ

def Expr.evalTargets (act : Activation) : List Expr → Continuation (List Target) → Store → Step
  | [], k, σ => k [] σ
  | e :: es, k, σ =>
    e.evalTarget act (fun t σ => evalTargets act es (fun ts σ => k (t :: ts) σ) σ) σ

/-- Leaves the function for a call that takes its place. -/
def Expr.returnCall (act : Activation) : Expr → Store → Step
  | .call f args site, σ =>
    f.eval act (fun f σ => Expr.evalList act args (fun vs σ =>
      .tailCall site f vs (σ.charge (vs.length + 1))) σ) σ
  | .method object name line args site, σ =>
    object.eval act (fun o σ =>
      Operation.index (.script act.chunk line) o (.str name) object.naming? (fun f σ =>
        Expr.evalList act args (fun vs σ =>
          .tailCall site f (o :: vs) (σ.charge (vs.length + 1))) σ) (σ.charge 1)) σ
  | e, σ => e.evalMulti act (fun vs σ => .done vs σ) σ

/-- Goes on to the next round of a loop over numbers, whose slots are as its statement says. -/
def nextRound (slot : Nat) (step : Value) (limit : Value) (body : Store → Step)
    (finished : Store → Step) (σ : Store) : Step :=
  match step, σ.slot slot, σ.slot (slot + 1) with
  | .int s, .int left, .int i =>
    if left = 0 then finished σ
    else
      let next := Value.int (i + s)
      body (((σ.freshSlot slot (.int (left - 1))).freshSlot (slot + 1) next).freshSlot (slot + 2)
        next |>.charge 1)
  | .float s, _, .float x =>
    let next := x + s
    match limit with
    | .float l =>
      if if 0 < s then next ≤ l else l ≤ next then
        body ((σ.freshSlot (slot + 1) (.float next)).freshSlot (slot + 2) (.float next)
          |>.charge 1)
      else finished σ
    | _ => finished σ
  | _, _, _ => finished σ

/-- Begins a loop over numbers: the slots for its first round, its step and its limit. -/
def firstRound? (slot : Nat) (rounds : Rounds) (σ : Store) : Option (Value × Value × Store) :=
  match rounds with
  | .none => none
  | .ints start step more =>
    let σ := (σ.freshSlot slot (.int more.toInt64)).freshSlot (slot + 1) (.int start)
    some (.int step, .nil, σ.freshSlot (slot + 2) (.int start))
  | .floats start limit step =>
    let σ := (σ.freshSlot slot .nil).freshSlot (slot + 1) (.float start)
    some (.float step, .float limit, σ.freshSlot (slot + 2) (.float start))

mutual

/-- Runs a statement. -/
def Stmt.exec (sur : Surroundings) : Stmt → (k : Store → Step) → Store → Step
  | .locals first count [], k, σ => k (σ.freshSlots first count [] |>.charge 1)
  | .locals first 1 [e], k, σ =>
    e.eval sur.act (fun v σ => k (σ.freshSlot first v)) (σ.charge 1)
  | .locals first count values, k, σ =>
    Expr.evalList sur.act values (fun vs σ => k (σ.freshSlots first count vs)) (σ.charge count)
  | .closing slot name line body, k, σ =>
    sur.closing line name (σ.slot slot) (fun sur k σ => body.exec sur k σ) k σ
  | .localFunction slot code, k, σ =>
    let (f, σ) := (σ.freshSlot slot .nil).newClosure sur.act code
    k (σ.setSlot slot f |>.charge 1)
  | .assign [.var i _] [e] _, k, σ =>
    e.eval sur.act (fun v σ => k (σ.setSlot i v)) (σ.charge 1)
  | .assign targets values line, k, σ =>
    Expr.evalTargets sur.act targets (fun ts σ =>
      Expr.evalList sur.act values (fun vs σ =>
        Target.assignAll sur.act line ts vs k σ) σ) σ
  | .call e, k, σ => e.evalMulti sur.act (fun _ σ => k σ) σ
  | .block body, k, σ => body.exec sur k σ
  | .while condition body, k, σ =>
    let finished : Store → Step := fun σ => .leave k σ
    let again : Store → Step := fun σ =>
      condition.eval sur.act (fun v σ =>
        if v.isTrue then body.exec { sur with onBreak := finished } (fun σ => .jump .again σ) σ
        else finished σ) (σ.charge 1)
    .enter [(.again, again)] again σ
  | .repeat body, k, σ =>
    let finished : Store → Step := fun σ => .leave k σ
    let again : Store → Step := fun σ =>
      body.exec { sur with onBreak := finished } (fun σ => .jump .again σ) σ
    .enter [(.again, again)] again σ
  | .ifElse condition yes no, k, σ =>
    condition.eval sur.act (fun v σ =>
      if v.isTrue then yes.exec sur k σ else no.exec sur k σ) (σ.charge 1)
  | .numericFor slot start limit step body line, k, σ =>
    start.eval sur.act (fun a σ => limit.eval sur.act (fun l σ => step.eval sur.act (fun s σ =>
      match planRounds a l s with
      | .error message => .raiseAt (.script sur.act.chunk line) message σ
      | .ok rounds =>
        match firstRound? slot rounds σ with
        | none => k σ
        | some (s, l, σ) =>
          let finished : Store → Step := fun σ => .leave k σ
          let round : Store → Step := fun σ =>
            body.exec { sur with onBreak := finished } (fun σ => .jump .again σ) σ
          .enter [(.again, fun σ => nextRound slot s l round finished σ)] round (σ.charge 3))
      σ) σ) σ
  | .genericFor slot count values body site, k, σ =>
    Expr.evalList sur.act values (fun vs σ =>
      let f := vs.headD .nil
      let subject := vs.tail.headD .nil
      let start := vs.tail.tail.headD .nil
      let closer := vs.tail.tail.tail.headD .nil
      sur.closing site.line loopStateName closer (fun sur k σ =>
        let finished : Store → Step := fun σ => .leave k σ
        let again : Store → Step := fun σ =>
          .call site f [subject, σ.slot slot] (fun results σ =>
            match results.headD .nil with
            | .nil => finished σ
            | v =>
              body.exec { sur with onBreak := finished } (fun σ => .jump .again σ)
                ((σ.freshSlot slot v).freshSlots (slot + 1) count results)) (σ.charge 2)
        .enter [(.again, again)] again (σ.freshSlot slot start)) k σ) σ
  | .return values, _, σ =>
    Expr.evalList sur.act values (fun vs σ => .done vs σ) (σ.charge 1)
  | .returnCall e, _, σ => e.returnCall sur.act σ
  | .break, _, σ => sur.onBreak σ
  | .goto label, _, σ => .jump (.named label) (σ.charge 1)
  | .label _, k, σ => k σ

/-- Runs statements one after the other. -/
def Stmt.execList (sur : Surroundings) : List Stmt → (k : Store → Step) → Store → Step
  | [], k, σ => k σ
  | s :: rest, k, σ => s.exec sur (fun σ => Stmt.execList sur rest k σ) σ

/-- The labels among statements, each with the run of what follows it. -/
def Stmt.labels (sur : Surroundings) (k : Store → Step) :
    List Stmt → List (Label × (Store → Step))
  | [] => []
  | .label name :: rest =>
    (.named name, fun σ => Stmt.execList sur rest k σ) :: Stmt.labels sur k rest
  | _ :: rest => Stmt.labels sur k rest

/-- Runs a block.  A block with labels is a scope of its own. -/
def Block.exec (sur : Surroundings) : Block → (k : Store → Step) → Store → Step
  | .mk false body, k, σ => Stmt.execList sur body k σ
  | .mk true body, k, σ =>
    let sur := sur.inScope
    let k : Store → Step := fun σ => .leave k σ
    .enter (Stmt.labels sur k body) (fun σ => Stmt.execList sur body k σ) σ

end

/-- Slots for a function's activation: the parameters with their arguments, and the rest. -/
def initialSlots (count params : Nat) (args : List Value) : Array Slot :=
  let given := ((args.take params).map Slot.direct).toArray
  given ++ Array.replicate (count - given.size) (.direct .nil)

/-- Runs a function of a script.  Its slots take the place of those in the store. -/
def Function.run (code : Function) (upvalues : Array Nat) (args : List Value) (σ : Store) :
    Step :=
  match code with
  | .mk chunk params vararg slots _ body =>
    let act : Activation := ⟨chunk, upvalues, if vararg then args.drop params else []⟩
    let sur : Surroundings := ⟨act, fun σ => .done [] σ⟩
    body.exec sur (fun σ => .done [] (σ.charge 1))
      { σ with slots := initialSlots slots params args }

end LuaConfig.Lua
