/-
The code of scripts.

Variables are resolved: a local variable is a slot of its function's activation, a variable of an
enclosing function is a capture, and a global one is a field of the variable `_ENV`.
-/
import LuaConfig.Lua.Numeral
import LuaConfig.Lua.Value

namespace LuaConfig.Lua

/-- Where a value comes from, as messages say it. -/
inductive Origin where
  | globalVariable | localVariable | upvalue | constant | field | method | metamethod | forIterator
  deriving DecidableEq, Repr

/-- The word for an origin. -/
def Origin.word : Origin → String
  | globalVariable => "global"
  | localVariable => "local"
  | upvalue => "upvalue"
  | constant => "constant"
  | field => "field"
  | method => "method"
  | metamethod => "metamethod"
  | forIterator => "for iterator"

/-- What a value is called where it is used. -/
structure Naming where
  origin : Origin
  name : String
  deriving DecidableEq

/-- A place of a script at which a function is called, and what the function is called there. -/
structure Site where
  chunk : String
  line : Nat
  naming : Option Naming := none
  deriving DecidableEq

inductive Unary where
  | negate | not | length | complement
  deriving DecidableEq, Repr

inductive Bitwise where
  | and | or | xor | shiftLeft | shiftRight
  deriving DecidableEq, Repr

inductive Comparison where
  | less | lessEqual | greater | greaterEqual | equal | notEqual
  deriving DecidableEq, Repr

inductive Binary where
  | arithmetic (op : Arithmetic)
  | bitwise (op : Bitwise)
  | compare (op : Comparison)
  | concat
  deriving DecidableEq, Repr

/-- Where a closure finds a captured variable when it is made. -/
inductive Capture where
  | slot (i : Nat)
  | upvalue (i : Nat)
  deriving DecidableEq, Repr

mutual

inductive Expr where
  | const (v : Value)
  | varargs
  | var (slot : Nat) (name : String)
  | upvalue (i : Nat) (name : String)
  | index (object key : Expr) (line : Nat)
  | call (f : Expr) (args : List Expr) (site : Site)
  | method (object : Expr) (name : Octets) (line : Nat) (args : List Expr) (site : Site)
  | function (code : Function)
  | unary (op : Unary) (a : Expr) (line : Nat)
  | binary (op : Binary) (a b : Expr) (line : Nat)
  | and (a b : Expr)
  | or (a b : Expr)
  /-- An expression in parentheses: its first value. -/
  | first (e : Expr)
  | table (items : List Item) (line : Nat)

/-- An item of a table constructor. -/
inductive Item where
  | positional (e : Expr)
  | keyed (key value : Expr) (line : Nat)

inductive Stmt where
  /-- New variables in the slots from `first` on. -/
  | locals (first count : Nat) (values : List Expr)
  /-- The rest of a block behind the declaration of a variable that is closed in the end. -/
  | closing (slot : Nat) (name : String) (line : Nat) (body : Block)
  | localFunction (slot : Nat) (code : Function)
  | assign (targets values : List Expr) (line : Nat)
  | call (e : Expr)
  | block (body : Block)
  | «while» (condition : Expr) (body : Block)
  /-- A loop that is left from inside its body. -/
  | «repeat» (body : Block)
  | ifElse (condition : Expr) (yes no : Block)
  /-- The slots from `slot` on hold the rounds that are left, the next value and the variable. -/
  | numericFor (slot : Nat) (start limit step : Expr) (body : Block) (line : Nat)
  /-- The slots from `slot` on hold the last value and the variables. -/
  | genericFor (slot count : Nat) (values : List Expr) (body : Block) (site : Site)
  | «return» (values : List Expr)
  /-- A call that takes the place of the activation. -/
  | returnCall (e : Expr)
  | «break»
  | goto (label : Octets)
  | label (name : Octets)

/-- Statements; `labelled` tells whether there is a label among them. -/
inductive Block where
  | mk (labelled : Bool) (body : List Stmt)

/-- A function: how many parameters it has, whether it takes more arguments, how many slots it
needs, its captures and its body. -/
inductive Function where
  | mk (chunk : String) (params : Nat) (vararg : Bool) (slots : Nat) (captures : List Capture)
    (body : Block)

end

/-- The statement that returns values.  A call takes the place of its function, unless something may
have to be closed after it. -/
def Stmt.ofReturn (closes : Bool) (values : List Expr) : Stmt :=
  match closes, values with
  | false, [.call f args site] => .returnCall (.call f args site)
  | false, [.method object name line args site] =>
    .returnCall (.method object name line args site)
  | _, values => .return values

/-- Is a statement a label? -/
def Stmt.isLabel : Stmt → Bool
  | label _ => true
  | _ => false

/-- Puts the statements behind the declaration of a variable that is closed into the variable's
scope, less the labels at the end of the block. -/
def Stmt.nestClosing : List Stmt → List Stmt
  | [] => []
  | .closing slot name line _ :: rest =>
    let rest := nestClosing rest
    let inside := (rest.reverse.dropWhile isLabel).reverse
    .closing slot name line (.mk (inside.any isLabel) inside) :: rest.drop inside.length
  | s :: rest => s :: nestClosing rest

/-- The block of the given statements. -/
def Block.ofStatements (labelled : Bool) (body : List Stmt) : Block :=
  .mk labelled (Stmt.nestClosing body)

instance : Inhabited Expr := ⟨.const .nil⟩

instance : Inhabited Block := ⟨.mk false []⟩

/-- The name under which a script sees its globals. -/
def environmentName : String := "_ENV"

/-- The largest integer key whose value is named as that of an integer. -/
def maxNamedIndex : Int64 := 255

/-- What the value of an expression is called in messages. -/
def Expr.naming? : Expr → Option Naming
  | var _ name => some ⟨.localVariable, name⟩
  | upvalue _ name => some ⟨.upvalue, name⟩
  | const (.str s) => some ⟨.constant, s.text⟩
  | index object (.const (.str key)) _ =>
    let isEnvironment := match object with
      | var _ name => name == environmentName
      | upvalue _ name => name == environmentName
      | _ => false
    some ⟨if isEnvironment then .globalVariable else .field, key.text⟩
  | index _ (.const (.int n)) _ =>
    some ⟨.field, if 0 ≤ n ∧ n ≤ maxNamedIndex then "integer index" else "?"⟩
  | index .. => some ⟨.field, "?"⟩
  | first e => e.naming?
  | _ => none

/-- Can an expression have more or fewer values than one? -/
def Expr.isMulti : Expr → Bool
  | varargs => true
  | call .. => true
  | method .. => true
  | _ => false

/-- An indexing expression whose value is asked for on another line. -/
def Expr.onLine (line : Nat) : Expr → Expr
  | index object key _ => .index object key line
  | e => e

end LuaConfig.Lua
