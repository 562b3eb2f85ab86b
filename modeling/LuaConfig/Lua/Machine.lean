/-
The machine that runs suspended computations.

The machine keeps a stack of what has been suspended: calls, open scopes and guarded calls.  It
takes one step at a time and answers what the current computation asks for.  The limits stand
outside the store, so that computations cannot see them: instructions are looked at after every
thousand of them, memory whenever more has been allocated than the limit allows.

An error is first handed to the handler of the guarded call it is raised in, on top of everything
that is suspended; outside of guarded calls the host makes a text of it.  When the handler has
returned, or there is none, what is suspended is left, down to the innermost guarded call or reader;
values that have to be closed are closed on the way.
-/
import LuaConfig.Lua.Evaluation
import LuaConfig.Lua.Library.Base
import LuaConfig.Lua.Library.Math
import LuaConfig.Lua.Library.String
import LuaConfig.Lua.Library.Table
import LuaConfig.Lua.Live

namespace LuaConfig.Lua

/-- Runs a builtin. -/
def Builtin.run (f : Builtin) (args : List Value) (σ : Store) : Step :=
  let inv : Invocation := ⟨f, args⟩
  match f with
  | .base g => Library.baseFunction g inv σ
  | .string g => Library.stringFunction g inv σ
  | .table g => Library.tableFunction g inv σ
  | .math g => Library.mathFunction g inv σ
  | .stringArithmetic op => Library.stringArithmetic op inv σ
  | .nextPosition => Library.nextPosition inv σ
  | .chooseTranslation locale => Library.chooseTranslation locale inv σ

/-- How far a run may go.  Where functions are `guarded`, those that catch errors stand inside
functions of the host. -/
structure Limits where
  instructions : Option Nat
  memory : Option Nat
  guarded : Bool

/-- What an error is handed to before what is suspended is left. -/
inductive Handler where
  /-- The handler of a guarded call. -/
  | script (f : Value)
  /-- The host, where no call is guarded: it makes a text of the error. -/
  | host

/-- Is an error handed to a handler?  The host leaves those alone that are its own. -/
def Handler.takes : Handler → Value → Bool
  | script _, _ => true
  | host, .failure _ => false
  | host, _ => true

/-- The function that is called with the error. -/
def Handler.function : Handler → Value
  | script f => f
  | host => .builtin (.base .tostring)

/-- The error of a handler that has been called too often. -/
def Handler.overflow : Handler → String
  | script _ => "error in error handling"
  | host => "C stack overflow"

/-- What has been suspended. -/
inductive Entry where
  /-- A call: where it was made, the slots of its caller and what is done with its results. -/
  | frame (site : Option Site) (slots : Array Slot) (k : List Value → Store → Step)
  | scope (labels : List (Label × (Store → Step)))
  /-- A scope with a value that is closed when the scope is left. -/
  | closing (site : Option Site) (v : Value)
  | guard (handler : Option Value) (slots : Array Slot)
      (k : Except Value (List Value) → Store → Step)
  | reader (slots : Array Slot) (k : List Value → Store → Step)
  /-- A handler is at work on an error that was raised at the given depth.  It may be called `again`
  times for its own errors.  The instructions of a handler are not looked at (`watched` is false)
  where the error was that they had been spent. -/
  | handling (handler : Handler) (again : Nat) (watched : Bool) (depth : Nat) (slots : Array Slot)
  /-- A value is being closed that a fault has left behind. -/
  | unwinding (fault : Fault)

/-- How many instructions have to be counted before they are looked at again, and whether they
have reached their limit before. -/
structure Meter where
  next : Nat
  exhausted : Bool

/-- What the machine has beside the step it takes. -/
structure Machine where
  stack : List Entry
  depth : Nat
  meter : Meter

/-- How a run has ended. -/
structure Final where
  outcome : Except Fault (List Value)
  store : Store
  exhausted : Bool

namespace Machine

/-- After how many instructions they are looked at. -/
def interval : Nat := 1000

/-- How many calls may be suspended. -/
def maxDepth : Nat := 190000

/-- How often a handler is called, for an error and for its own errors. -/
def maxHandlings : Nat := 200

/-- By how many calls a handler may go deeper than a script. -/
def handlerDepth : Nat := 100

/-! ### Calls -/

/-- Calls what is no function through its metatable. -/
def invokeFrom (site : Option Site) : (fuel : Nat) → Value → List Value → Store → Step
  | 0, _, _, σ => .raise "C stack overflow" σ
  | fuel + 1, f, args, σ =>
    match f with
    | .func ref =>
      match σ.functions[ref]? with
      | some (.script code upvalues) => code.run upvalues args σ
      | some (.matches walk) => Library.nextMatch ref walk σ
      | none => .raise "no such function" σ
    | .builtin f => f.run args σ
    | f =>
      match σ.metamethod f Event.call with
      | .nil =>
        let place := match site with
          | some s => s.place
          | none => .builtin
        Operation.refuse place "call" f (site.bind (·.naming)) σ
      | handler => invokeFrom site fuel handler (f :: args) σ

/-- Calls a value from a site. -/
def invoke (site : Option Site) (f : Value) (args : List Value) (σ : Store) : Step :=
  invokeFrom site 100 f args { σ with slots := #[] }

/-- Does a script's function run when a value is called? -/
def isScript (σ : Store) : Value → Bool
  | .func ref =>
    match σ.functions[ref]? with
    | some (.script ..) => true
    | _ => false
  | _ => false

/-! ### The stack -/

/-- How many levels of calls a guarded call is: the function that scripts call, and the one that
guards, where it stands inside the former. -/
def guardLevels (limits : Limits) : Nat := if limits.guarded then 2 else 1

/-- The site of the call at a level. -/
def siteAt (limits : Limits) : List Entry → (level : Nat) → Option Site
  | [], _ => none
  | .frame site _ _ :: rest, level => if level ≤ 1 then site else siteAt limits rest (level - 1)
  | .scope _ :: rest, level => siteAt limits rest level
  | .closing _ _ :: rest, level => siteAt limits rest level
  | .guard _ _ _ :: rest, level =>
    let n := guardLevels limits
    if level ≤ n then none else siteAt limits rest (level - n)
  | .reader _ _ :: rest, level =>
    if level ≤ 1 then none else siteAt limits rest (level - 1)
  | .handling _ _ _ _ _ :: rest, level =>
    if level ≤ 1 then none else siteAt limits rest (level - 1)
  | .unwinding _ :: rest, level =>
    if level ≤ 1 then none else siteAt limits rest (level - 1)

/-- The stack of an active function without its scopes. -/
def withoutScopes : List Entry → List Entry
  | .scope _ :: rest => withoutScopes rest
  | stack => stack

/-- The slots of all suspended functions, and the values that are held beside them. -/
def suspendedSlots : List Entry → List (Array Slot)
  | [] => []
  | .frame _ slots _ :: rest => slots :: suspendedSlots rest
  | .scope _ :: rest => suspendedSlots rest
  | .closing _ v :: rest => #[.direct v] :: suspendedSlots rest
  | .guard _ slots _ :: rest => slots :: suspendedSlots rest
  | .reader slots _ :: rest => slots :: suspendedSlots rest
  | .handling _ _ _ _ slots :: rest => slots :: suspendedSlots rest
  | .unwinding (.raised v) :: rest => #[.direct v] :: suspendedSlots rest
  | .unwinding .outOfMemory :: rest => suspendedSlots rest

/-- What a step leads to: the machine and its next step, or the end. -/
abbrev Progress : Type := Except Final (Machine × Step)

/-- Suspends the current function and calls another one. -/
def push (m : Machine) (site : Option Site) (f : Value) (args : List Value)
    (k : List Value → Store → Step) (stack : List Entry) (σ : Store) : Machine × Step :=
  if maxDepth ≤ m.depth then
    let place := match site with
      | some s => s.place
      | none => .builtin
    (m, .raiseAt place "stack overflow" σ)
  else
    ({ m with stack := .frame site σ.slots k :: stack, depth := m.depth + 1 },
      invoke site f args σ)

/-- Closes a value whose scope is left, and goes on. -/
def close (m : Machine) (site : Option Site) (v : Value) (next : Store → Step)
    (stack : List Entry) (σ : Store) : Machine × Step :=
  push m site (σ.metamethod v Event.close) [v, .nil] (fun _ σ => next σ) stack σ

/-! ### Errors -/

/-- The error by which a run out of instructions is stopped. -/
def exhaustedText (limit : Nat) : String :=
  "instruction limit of " ++ Nat.repr limit ++ " exceeded"

/-- The error by which a guarded call ends once the instructions are spent. -/
def guardText : String := "instruction limit exceeded inside a protected call"

/-- The error by which a guarded call is refused.  Where the function that scripts call is the
host's, so is the error. -/
def refusal (limits : Limits) (message : String) : Value :=
  if limits.guarded then .failure message else .ofString message

/-- The value by which a fault is caught. -/
def faultValue : Fault → Value
  | .raised v => v
  | .outOfMemory => .ofString "not enough memory"

/-- Ends a guarded call.  Once the instructions are spent it ends in an error. -/
def finishGuard (m : Machine) (rest : List Entry) (slots : Array Slot)
    (k : Except Value (List Value) → Store → Step) (outcome : Except Value (List Value))
    (σ : Store) : Machine × Step :=
  let σ := { σ with slots := slots }
  let next := if m.meter.exhausted then .fail (.raised (.failure guardText)) σ else k outcome σ
  ({ m with stack := rest, depth := m.depth - 1 }, next)

/-- Leaves what is suspended because of a fault, down to the innermost guarded call or reader. -/
def unwind (m : Machine) (fault : Fault) (σ : Store) : List Entry → Progress
  | [] => .error ⟨.error fault, σ, m.meter.exhausted⟩
  | .frame _ _ _ :: rest => unwind { m with depth := m.depth - 1 } fault σ rest
  | .scope _ :: rest => unwind m fault σ rest
  | .closing _ v :: rest =>
    .ok ({ m with stack := .unwinding fault :: rest },
      invoke none (σ.metamethod v Event.close) [v, faultValue fault] σ)
  | .guard _ slots k :: rest =>
    .ok (finishGuard m rest slots k (.error (faultValue fault)) σ)
  | .reader slots _ :: rest =>
    .ok ({ m with stack := rest, depth := m.depth - 1 },
      .done [.nil, faultValue fault] { σ with slots := slots })
  | .handling _ _ _ depth _ :: rest => unwind { m with depth := depth } fault σ rest
  | .unwinding _ :: rest => unwind m fault σ rest

/-- The handler to which an error is handed, and how often it may be called. -/
def handlerFor (v : Value) : List Entry → Option (Handler × Nat)
  | [] => if Handler.host.takes v then some (.host, maxHandlings) else none
  | .guard handler _ _ :: _ => handler.map (.script ·, maxHandlings)
  | .handling handler again _ _ _ :: _ => if handler.takes v then some (handler, again) else none
  | _ :: rest => handlerFor v rest

/-- Raises an error. -/
def raise (m : Machine) (watched : Bool) (v : Value) (σ : Store) : Progress :=
  match handlerFor v m.stack with
  | none => unwind m (.raised v) σ m.stack
  | some (handler, 0) => unwind m (.raised (.ofString handler.overflow)) σ m.stack
  | some (handler, again + 1) =>
    .ok ({ m with
        stack := .handling handler again watched m.depth σ.slots :: m.stack
        depth := m.depth - handlerDepth },
      invoke none handler.function [v] σ)

/-! ### Steps -/

/-- Hands results to what waits for them. -/
def resume (m : Machine) (results : List Value) (σ : Store) : List Entry → Progress
  | [] => .error ⟨.ok results, σ, m.meter.exhausted⟩
  | .frame _ slots k :: rest =>
    .ok ({ m with stack := rest, depth := m.depth - 1 }, k results { σ with slots := slots })
  | .scope _ :: rest => resume m results σ rest
  | .closing site v :: rest => .ok (close m site v (fun σ => .done results σ) rest σ)
  | .guard _ slots k :: rest => .ok (finishGuard m rest slots k (.ok results) σ)
  | .reader slots k :: rest =>
    .ok ({ m with stack := rest, depth := m.depth - 1 }, k results { σ with slots := slots })
  | .handling _ _ _ depth _ :: rest =>
    unwind { m with depth := depth } (.raised (results.headD .nil)) σ rest
  | .unwinding fault :: rest => unwind m fault σ rest

/-- Leaves the innermost scope. -/
def leave (m : Machine) (k : Store → Step) (σ : Store) : List Entry → Machine × Step
  | .scope _ :: rest => ({ m with stack := rest }, k σ)
  | .closing site v :: rest => close m site v k rest σ
  | _ => (m, k σ)

/-- Goes on at a label of the nearest scope that has it. -/
def jump (m : Machine) (label : Label) (σ : Store) : List Entry → Machine × Step
  | .scope labels :: rest =>
    match labels.lookup label with
    | some run => ({ m with stack := .scope labels :: rest }, run σ)
    | none => jump m label σ rest
  | .closing site v :: rest => close m site v (fun σ => .jump label σ) rest σ
  | _ => (m, .raise "no such label" σ)

/-- The octets that are in use. -/
def liveSize (m : Machine) (σ : Store) : Nat := σ.liveSize (suspendedSlots m.stack)

/-- Gives a computation the memory it asks for, if there is as much. -/
def reserve (limits : Limits) (m : Machine) (size : Nat) (k : Store → Step) (σ : Store) : Step :=
  match limits.memory with
  | none => k (σ.allocate size)
  | some limit =>
    if σ.allocated + size ≤ limit then k (σ.allocate size)
    else
      let live := liveSize m σ
      if live + size ≤ limit then k { σ with allocated := live + size }
      else .fail .outOfMemory σ

/-- The octets of the host's functions that stand around those that catch errors. -/
def guardSize : Nat := 512

/-- The octets that are said to be in use. -/
def inUse (limits : Limits) (σ : Store) : Nat :=
  σ.allocated + if limits.guarded then guardSize else 0

/-- Answers what the current computation asks for. -/
def answer (limits : Limits) (m : Machine) : Step → Progress
  | .done results σ => resume m results σ m.stack
  | .call site f args k σ => .ok (push m site f args k m.stack σ)
  | .tailCall site f args σ =>
    let stack := withoutScopes m.stack
    if isScript σ f then .ok ({ m with stack := stack }, invoke (some site) f args σ)
    else .ok (push m (some site) f args (fun vs σ => .done vs σ) stack σ)
  | .fail (.raised v) σ => raise m true v σ
  | .fail .outOfMemory σ => unwind m .outOfMemory σ m.stack
  | .enter labels inside σ => .ok ({ m with stack := .scope labels :: m.stack }, inside σ)
  | .enterClosing site v inside σ =>
    .ok ({ m with stack := .closing site v :: m.stack }, inside σ)
  | .leave k σ => .ok (leave m k σ m.stack)
  | .jump label σ => .ok (jump m label σ m.stack)
  | .attempt handler f args k σ =>
    if maxDepth ≤ m.depth then .ok (m, .raise "stack overflow" σ)
    else
      .ok ({ m with stack := .guard handler σ.slots k :: m.stack, depth := m.depth + 1 },
        invoke none f args σ)
  | .refuseAttempt message σ => raise m true (refusal limits message) σ
  | .read reader k σ =>
    if maxDepth ≤ m.depth then .ok (m, .raise "stack overflow" σ)
    else
      .ok ({ m with stack := .reader σ.slots k :: m.stack, depth := m.depth + 1 },
        invoke none reader [] σ)
  | .locate level k σ => .ok (m, k (siteAt limits m.stack level) σ)
  | .reserve size k σ => .ok (m, reserve limits m size k σ)
  | .measure k σ => .ok (m, k (inUse limits σ) σ)

/-- Is a handler at work whose instructions are not looked at? -/
def isUnwatched : List Entry → Bool
  | [] => false
  | .handling _ _ false _ _ :: _ => true
  | _ :: rest => isUnwatched rest

/-- Looks at the instructions if enough of them have been counted; returns the error they give
rise to. -/
def checkInstructions (limits : Limits) (m : Machine) (spent : Nat) : Machine × Option String :=
  match limits.instructions with
  | none => (m, none)
  | some limit =>
    if spent < m.meter.next then (m, none)
    else
      let total := spent / interval * interval
      if total < limit || isUnwatched m.stack then
        ({ m with meter := { m.meter with next := total + interval } }, none)
      else ({ m with meter := ⟨total + interval, true⟩ }, some (exhaustedText limit))

/-- Looks at the memory if more has been allocated than may be in use. -/
def checkMemory (limits : Limits) (m : Machine) (s : Step) : Step :=
  match limits.memory with
  | none => s
  | some limit =>
    if s.store.allocated ≤ limit then s
    else
      let live := liveSize m s.store
      let s := s.modifyStore ({ · with allocated := live })
      if live ≤ limit then s else .fail .outOfMemory s.store

/-- One step. -/
def step (limits : Limits) (m : Machine) (s : Step) : Progress :=
  let s := checkMemory limits m s
  match checkInstructions limits m s.store.spent with
  | (m, none) => answer limits m s
  | (m, some text) => raise m false (.failure text) s.store

/-- Takes steps until the run ends. -/
def run (limits : Limits) : (fuel : Nat) → Machine → Step → Option Final
  | 0, _, _ => none
  | fuel + 1, m, s =>
    match step limits m s with
    | .ok (m, s) => run limits fuel m s
    | .error final => some final

/-- A machine that has not suspended anything. -/
def initial : Machine := ⟨[], 0, ⟨interval, false⟩⟩

/-- Calls a function and runs until it has returned. -/
def call (limits : Limits) (fuel : Nat) (f : Value) (args : List Value) (σ : Store) :
    Option Final :=
  run limits fuel initial (invoke none f args σ)

end Machine

end LuaConfig.Lua
