/-
From tokens to code.

The tokens are read once, from left to right, and the first fault ends the reading.  Every function
here takes fuel and hands less of it on; `Function.ofTokens` starts with more than any list of
tokens can use up.  Nesting is limited apart from that.
-/
import LuaConfig.Lua.Code.Scope
import LuaConfig.Lua.Operation.Number
import LuaConfig.Lua.Token.Scan

namespace LuaConfig.Lua

-- the comparison of octets is the built-in one
attribute [local instance (2000)] ByteArray.instDecidableEq

/-- Why a text is no script. -/
inductive SyntaxFault where
  /-- What stands on the line cannot stand there. -/
  | unexpected (line : Nat)
  /-- The text is nested too deep. -/
  | tooDeep
  deriving DecidableEq, Repr

/-- What is left to read, and the open functions, innermost first. -/
structure Reader where
  chunk : String
  tokens : List Lexeme
  lastLine : Nat := 1
  depth : Nat := 0
  functions : List FunctionScope := []

/-- Takes a piece of code off the tokens. -/
abbrev Parse (α : Type) : Type := StateT Reader (Except SyntaxFault) α

namespace Parse

/-- The levels of nesting that a script may have. -/
def maxDepth : Nat := 195

/-- The largest number of variables in scope in one function. -/
def maxVariables : Nat := 200

/-! ### Tokens -/

def token : Parse Token := do
  match (← get).tokens with
  | t :: _ => return t.token
  | [] => return .done

/-- The line of the current token. -/
def line : Parse Nat := do
  let r ← get
  match r.tokens with
  | t :: _ => return t.line
  | [] => return r.lastLine

/-- The line of the token before the current one. -/
def lastLine : Parse Nat := do return (← get).lastLine

/-- Reading cannot go on at the current token. -/
def fail {α : Type} : Parse α := do throw (.unexpected (← line))

/-- Refuses a current token that is none. -/
def checkToken : Parse Unit := do
  if (← token) = .malformed then fail

/-- Goes on to the next token. -/
def advance : Parse Unit := do
  let line ← line
  modify fun r => { r with tokens := r.tokens.tail, lastLine := line }
  checkToken

def isSymbol (s : Symbol) : Parse Bool := do return (← token) = .symbol s

def isKeyword (k : Keyword) : Parse Bool := do return (← token) = .keyword k

/-- Passes over a sign if it is the current token. -/
def acceptSymbol (s : Symbol) : Parse Bool := do
  if ← isSymbol s then
    advance
    return true
  else return false

def acceptKeyword (k : Keyword) : Parse Bool := do
  if ← isKeyword k then
    advance
    return true
  else return false

def expectSymbol (s : Symbol) : Parse Unit := do
  if !(← acceptSymbol s) then fail

def expectKeyword (k : Keyword) : Parse Unit := do
  if !(← acceptKeyword k) then fail

def name : Parse Octets := do
  match ← token with
  | .name s =>
    advance
    return s
  | _ => fail

/-- Reads one level deeper. -/
def nested {α : Type} (inside : Parse α) : Parse α := do
  let depth := (← get).depth
  if maxDepth ≤ depth then throw .tooDeep
  modify fun r => { r with depth := depth + 1 }
  let a ← inside
  modify fun r => { r with depth := depth }
  return a

/-! ### Scopes -/

/-- The innermost function. -/
def scope : Parse FunctionScope := do
  match (← get).functions with
  | f :: _ => return f
  | [] => return { vararg := true }

def modifyScope (change : FunctionScope → FunctionScope) : Parse Unit :=
  modify fun r =>
    match r.functions with
    | f :: outer => { r with functions := change f :: outer }
    | [] => r

/-- A new variable; returns its slot. -/
def declare (name : Octets) (kind : VariableKind := .plain) : Parse Nat := do
  let f ← scope
  if maxVariables ≤ f.locals.length then fail
  modifyScope (·.withVariable name kind)
  return f.slot

/-- New slots without names; returns the first of them. -/
def reserve (n : Nat) : Parse Nat := do
  let f ← scope
  modifyScope (·.withSlots n)
  return f.slot

/-- Reads what stands in a block of its own. -/
def inBlock {α : Type} (isLoop : Bool) (inside : Parse α) : Parse α := do
  modifyScope (·.opened isLoop)
  let a ← inside
  let (f, waiting) := (← scope).closed
  if !waiting.isEmpty then fail
  modifyScope fun _ => f
  return a

/-- Was a label put into the innermost block? -/
def blockHasLabel : Parse Bool := do
  match (← scope).blocks with
  | block :: _ => return !block.labels.isEmpty
  | [] => return false

/-- The variable of a name, as an expression. -/
def resolve (name : Octets) : Parse (Option Expr) := do
  let r ← get
  let (binding, functions) := FunctionScope.resolve name r.functions
  set { r with functions := functions }
  match binding with
  | none => return none
  | some (.variable v) =>
    match v.kind with
    | .known value => return some (.const value)
    | _ => return some (.var v.slot name.text)
  | some (.capture i _) => return some (.upvalue i name.text)

/-- The expression that a name is. -/
def nameExpr (name : Octets) : Parse Expr := do
  match ← resolve name with
  | some e => return e
  | none =>
    let environment ← resolve (Octets.ofString environmentName)
    return .index (environment.getD (.const .nil)) (.const (.str name)) (← lastLine)

/-- May the variable of a name not be assigned to? -/
def isFixed (name : String) : Parse Bool := do
  match (FunctionScope.resolve (Octets.ofString name) (← get).functions).1 with
  | some (.variable v) => return v.kind ≠ .plain
  | some (.capture _ kind) => return kind ≠ .plain
  | none => return false

/-- Refuses what cannot be assigned to. -/
def checkTarget (target : Expr) : Parse Unit := do
  match target with
  | .var _ name => if ← isFixed name then fail
  | .upvalue _ name => if ← isFixed name then fail
  | .index .. => return
  | _ => fail

/-! ### Operators -/

/-- A binary operator, or one that may leave its second operand alone. -/
inductive Operator where
  | binary (op : Binary)
  | and
  | or

/-- The operator that a token is, with the strength by which it binds to its left and to its
right. -/
def operator? : Token → Option (Operator × Nat × Nat)
  | .keyword .kwOr => some (.or, 1, 1)
  | .keyword .kwAnd => some (.and, 2, 2)
  | .symbol .less => some (.binary (.compare .less), 3, 3)
  | .symbol .greater => some (.binary (.compare .greater), 3, 3)
  | .symbol .lessEqual => some (.binary (.compare .lessEqual), 3, 3)
  | .symbol .greaterEqual => some (.binary (.compare .greaterEqual), 3, 3)
  | .symbol .equal => some (.binary (.compare .equal), 3, 3)
  | .symbol .notEqual => some (.binary (.compare .notEqual), 3, 3)
  | .symbol .pipe => some (.binary (.bitwise .or), 4, 4)
  | .symbol .tilde => some (.binary (.bitwise .xor), 5, 5)
  | .symbol .ampersand => some (.binary (.bitwise .and), 6, 6)
  | .symbol .shiftLeft => some (.binary (.bitwise .shiftLeft), 7, 7)
  | .symbol .shiftRight => some (.binary (.bitwise .shiftRight), 7, 7)
  | .symbol .concat => some (.binary .concat, 9, 8)
  | .symbol .plus => some (.binary (.arithmetic .add), 10, 10)
  | .symbol .minus => some (.binary (.arithmetic .sub), 10, 10)
  | .symbol .star => some (.binary (.arithmetic .mul), 11, 11)
  | .symbol .slash => some (.binary (.arithmetic .div), 11, 11)
  | .symbol .doubleSlash => some (.binary (.arithmetic .idiv), 11, 11)
  | .symbol .percent => some (.binary (.arithmetic .mod), 11, 11)
  | .symbol .caret => some (.binary (.arithmetic .pow), 14, 13)
  | _ => none

/-- The strength by which unary operators bind. -/
def unaryStrength : Nat := 12

def unary? : Token → Option Unary
  | .keyword .kwNot => some .not
  | .symbol .minus => some .negate
  | .symbol .hash => some .length
  | .symbol .tilde => some .complement
  | _ => none

/-- Joins two operands by the operator on the given line.  A chain of concatenations is one
operation, on the line of its last operator. -/
def join (op : Operator) (a b : Expr) (line : Nat) : Expr :=
  match op, b with
  | .and, b => .and a b
  | .or, b => .or a b
  | .binary .concat, .binary .concat _ _ last => .binary .concat a b last
  | .binary op, b => .binary op a b line

/-- Does a token end a block?  `until` does so only where it is asked for. -/
def endsBlock (withUntil : Bool) : Token → Bool
  | .done => true
  | .keyword .kwElse => true
  | .keyword .kwElseif => true
  | .keyword .kwEnd => true
  | .keyword .kwUntil => withUntil
  | _ => false

/-- The value of a literal. -/
def literal? : Token → Option Value
  | .number n => some n.toValue
  | .string s => some (.str s)
  | .keyword .kwNil => some .nil
  | .keyword .kwTrue => some (.bool true)
  | .keyword .kwFalse => some (.bool false)
  | _ => none

/-- Is the next token but one the sign of an assignment? -/
def nextIsAssign : Parse Bool := do
  match (← get).tokens with
  | _ :: t :: _ =>
    if t.token = .malformed then throw (.unexpected t.line)
    return t.token = .symbol .assign
  | _ => return false

/-- The name in angle brackets behind a local variable. -/
def attribute? : Parse (Option Octets) := do
  if ← acceptSymbol .less then
    let mark ← name
    expectSymbol .greater
    return some mark
  else return none

/-- Closes the open function. -/
def closeFunction (params : Nat) (body : Block) : Parse Function := do
  let f ← scope
  let r ← get
  set { r with functions := r.functions.tail }
  return .mk r.chunk params f.vararg f.slots (f.captures.map (·.2.2)) body

/-- Names, until a parameter list ends; returns how many there were and whether more arguments are
taken. -/
def parameters : (fuel count : Nat) → Parse (Nat × Bool)
  | 0, _ => throw .tooDeep
  | fuel + 1, count => do
    if ← acceptSymbol .ellipsis then return (count, true)
    let parameter ← name
    let _ ← declare parameter
    if ← acceptSymbol .comma then parameters fuel (count + 1) else return (count + 1, false)

/-- More names behind commas. -/
def moreNames : (fuel : Nat) → List Octets → Parse (List Octets)
  | 0, _ => throw .tooDeep
  | fuel + 1, names => do
    if ← acceptSymbol .comma then
      let next ← name
      moreNames fuel (next :: names)
    else return names.reverse

/-- Variables of a local statement with their attributes, the newest one first. -/
def attributedNames : (fuel : Nat) → List (Octets × Option Octets) →
    Parse (List (Octets × Option Octets))
  | 0, _ => throw .tooDeep
  | fuel + 1, names => do
    let next ← name
    let mark ← attribute?
    match mark with
    | some a =>
      if a ≠ Octets.ofString "const" ∧ a ≠ Octets.ofString "close" then fail
    | none => pure ()
    let names := (next, mark) :: names
    if ← acceptSymbol .comma then attributedNames fuel names else return names.reverse

/-- The fields behind the name of a function that is defined. -/
def functionName : (fuel : Nat) → Expr → Parse Expr
  | 0, _ => throw .tooDeep
  | fuel + 1, e => do
    if ← acceptSymbol .dot then
      let key ← name
      functionName fuel (.index e (.const (.str key)) (← lastLine))
    else return e

/-! ### Expressions and statements -/

mutual

def expr : (fuel : Nat) → Parse Expr
  | 0 => throw .tooDeep
  | fuel + 1 => operand fuel 0

/-- An expression whose operators all bind more strongly than `limit`. -/
def operand : (fuel limit : Nat) → Parse Expr
  | 0, _ => throw .tooDeep
  | fuel + 1, limit => nested do
    let first ←
      match unary? (← token) with
      | some op => do
        let at_ ← line
        advance
        let e ← operand fuel unaryStrength
        pure (Expr.unary op e at_)
      | none => simple fuel
    operators fuel limit first

/-- The operators that follow an operand. -/
def operators : (fuel limit : Nat) → Expr → Parse Expr
  | 0, _, _ => throw .tooDeep
  | fuel + 1, limit, a => do
    match operator? (← token) with
    | none => return a
    | some (op, left, right) =>
      if left ≤ limit then return a
      else
        let at_ ← line
        advance
        let b ← operand fuel right
        operators fuel limit (join op (a.onLine at_) b at_)

def simple : (fuel : Nat) → Parse Expr
  | 0 => throw .tooDeep
  | fuel + 1 => do
    match literal? (← token) with
    | some v =>
      advance
      return .const v
    | none =>
      if ← isSymbol .ellipsis then
        if !(← scope).vararg then fail
        advance
        return .varargs
      else if ← isSymbol .openBrace then constructor fuel
      else if ← acceptKeyword .kwFunction then return .function (← functionBody fuel false)
      else suffixed fuel

/-- A name or an expression in parentheses. -/
def primary : (fuel : Nat) → Parse Expr
  | 0 => throw .tooDeep
  | fuel + 1 => do
    match ← token with
    | .name s =>
      advance
      nameExpr s
    | .symbol .openParen =>
      advance
      let e ← expr fuel
      expectSymbol .closeParen
      return .first (e.onLine (← lastLine))
    | _ => fail

def suffixed : (fuel : Nat) → Parse Expr
  | 0 => throw .tooDeep
  | fuel + 1 => do
    let e ← primary fuel
    suffixes fuel e

/-- The fields, indices and calls that follow a primary expression. -/
def suffixes : (fuel : Nat) → Expr → Parse Expr
  | 0, _ => throw .tooDeep
  | fuel + 1, e => do
    match ← token with
    | .symbol .dot =>
      advance
      let key ← name
      suffixes fuel (.index e (.const (.str key)) (← lastLine))
    | .symbol .openBracket =>
      advance
      let key ← expr fuel
      expectSymbol .closeBracket
      suffixes fuel (.index e key (← lastLine))
    | .symbol .colon =>
      advance
      let key ← name
      let at_ ← lastLine
      let (args, callLine) ← arguments fuel
      let site : Site := ⟨(← get).chunk, callLine, some ⟨.method, key.text⟩⟩
      suffixes fuel (.method e key at_ args site)
    | .symbol .openParen =>
      let (args, callLine) ← arguments fuel
      suffixes fuel (.call e args ⟨(← get).chunk, callLine, e.naming?⟩)
    | .symbol .openBrace =>
      let (args, callLine) ← arguments fuel
      suffixes fuel (.call e args ⟨(← get).chunk, callLine, e.naming?⟩)
    | .string _ =>
      let (args, callLine) ← arguments fuel
      suffixes fuel (.call e args ⟨(← get).chunk, callLine, e.naming?⟩)
    | _ => return e

/-- The arguments of a call, and the line on which they begin. -/
def arguments : (fuel : Nat) → Parse (List Expr × Nat)
  | 0 => throw .tooDeep
  | fuel + 1 => do
    let at_ ← line
    match ← token with
    | .string s =>
      advance
      return ([.const (.str s)], at_)
    | .symbol .openBrace => return ([← constructor fuel], at_)
    | .symbol .openParen =>
      advance
      if ← acceptSymbol .closeParen then return ([], at_)
      let args ← exprs fuel []
      expectSymbol .closeParen
      return (args, at_)
    | _ => fail

/-- Expressions between commas; those before them are `done`, newest first. -/
def exprs : (fuel : Nat) → List Expr → Parse (List Expr)
  | 0, _ => throw .tooDeep
  | fuel + 1, done => do
    let e ← expr fuel
    if ← acceptSymbol .comma then exprs fuel (e :: done)
    else return (e :: done).reverse

/-- A table constructor. -/
def constructor : (fuel : Nat) → Parse Expr
  | 0 => throw .tooDeep
  | fuel + 1 => do
    let at_ ← line
    expectSymbol .openBrace
    let items ← items fuel []
    return .table items at_

/-- The items of a constructor and the brace that ends them. -/
def items : (fuel : Nat) → List Item → Parse (List Item)
  | 0, _ => throw .tooDeep
  | fuel + 1, done => do
    if ← acceptSymbol .closeBrace then return done.reverse
    let i ← item fuel
    let done := i :: done
    if ← acceptSymbol .comma then items fuel done
    else if ← acceptSymbol .semicolon then items fuel done
    else
      expectSymbol .closeBrace
      return done.reverse

def item : (fuel : Nat) → Parse Item
  | 0 => throw .tooDeep
  | fuel + 1 => do
    match ← token with
    | .name s =>
      if ← nextIsAssign then
        advance
        advance
        let value ← expr fuel
        return .keyed (.const (.str s)) value (← lastLine)
      else return .positional (← expr fuel)
    | .symbol .openBracket =>
      advance
      let key ← expr fuel
      expectSymbol .closeBracket
      expectSymbol .assign
      let value ← expr fuel
      return .keyed key value (← lastLine)
    | _ => return .positional (← expr fuel)

/-- A function from its parameter list on. -/
def functionBody : (fuel : Nat) → (isMethod : Bool) → Parse Function
  | 0, _ => throw .tooDeep
  | fuel + 1, isMethod => do
    modify fun r => { r with functions := { vararg := false } :: r.functions }
    modifyScope (·.opened false)
    let own := if isMethod then 1 else 0
    if isMethod then
      let _ ← declare (Octets.ofString "self")
    expectSymbol .openParen
    let (count, vararg) ←
      if ← isSymbol .closeParen then pure (own, false) else parameters fuel own
    expectSymbol .closeParen
    modifyScope fun f => { f with vararg := vararg }
    let body ← statements fuel []
    expectKeyword .kwEnd
    let labelled ← blockHasLabel
    let (f, waiting) := (← scope).closed
    if !waiting.isEmpty then fail
    modifyScope fun _ => f
    closeFunction count (.ofStatements labelled body)

/-- Statements to the end of a block; those before them are `done`, newest first. -/
def statements : (fuel : Nat) → List Stmt → Parse (List Stmt)
  | 0, _ => throw .tooDeep
  | fuel + 1, done => do
    let t ← token
    if endsBlock true t then return done.reverse
    else if t = .keyword .kwReturn then
      let s ← nested (returnStatement fuel)
      return (s :: done).reverse
    else
      let new ← nested (statement fuel)
      statements fuel (new.reverse ++ done)

/-- A block of its own. -/
def block : (fuel : Nat) → (isLoop : Bool) → Parse Block
  | 0, _ => throw .tooDeep
  | fuel + 1, isLoop => inBlock isLoop do
    let body ← statements fuel []
    return .ofStatements (← blockHasLabel) body

/-- One statement; a declaration may be more than one, an empty statement is none. -/
def statement : (fuel : Nat) → Parse (List Stmt)
  | 0 => throw .tooDeep
  | fuel + 1 => do
    match ← token with
    | .symbol .semicolon =>
      advance
      return []
    | .keyword .kwIf =>
      advance
      return [← ifStatement fuel]
    | .keyword .kwWhile =>
      advance
      let condition ← expr fuel
      expectKeyword .kwDo
      let body ← inBlock true (block fuel false)
      expectKeyword .kwEnd
      return [.while condition body]
    | .keyword .kwDo =>
      advance
      let body ← block fuel false
      expectKeyword .kwEnd
      return [.block body]
    | .keyword .kwFor =>
      advance
      return [← forStatement fuel]
    | .keyword .kwRepeat =>
      advance
      return [← repeatStatement fuel]
    | .keyword .kwFunction =>
      advance
      return [← functionStatement fuel]
    | .keyword .kwLocal =>
      advance
      if ← acceptKeyword .kwFunction then
        let f ← name
        let slot ← declare f
        return [.localFunction slot (← functionBody fuel false)]
      else localStatement fuel
    | .symbol .doubleColon =>
      advance
      labelStatement fuel
    | .keyword .kwBreak =>
      advance
      modifyScope (·.withJump breakName)
      return [.break]
    | .keyword .kwGoto =>
      advance
      let label ← name
      modifyScope (·.withJump label)
      return [.goto label]
    | _ => expressionStatement fuel

/-- A conditional behind its `if` or `elseif`. -/
def ifStatement : (fuel : Nat) → Parse Stmt
  | 0 => throw .tooDeep
  | fuel + 1 => do
    let condition ← expr fuel
    expectKeyword .kwThen
    let yes ← block fuel false
    if ← acceptKeyword .kwElseif then
      let no ← ifStatement fuel
      return .ifElse condition yes (.mk false [no])
    else if ← acceptKeyword .kwElse then
      let no ← block fuel false
      expectKeyword .kwEnd
      return .ifElse condition yes no
    else
      expectKeyword .kwEnd
      return .ifElse condition yes (.mk false [])

def repeatStatement : (fuel : Nat) → Parse Stmt
  | 0 => throw .tooDeep
  | fuel + 1 => inBlock true (inBlock false do
    let body ← statements fuel []
    let labelled ← blockHasLabel
    expectKeyword .kwUntil
    let condition ← expr fuel
    let last := Stmt.ifElse condition (.mk false [.break]) (.mk false [])
    return .repeat (.ofStatements labelled (body ++ [last])))

def forStatement : (fuel : Nat) → Parse Stmt
  | 0 => throw .tooDeep
  | fuel + 1 => do
    let forLine ← lastLine
    let first ← name
    if ← isSymbol .assign then
      advance
      inBlock true do
        let start ← expr fuel
        expectSymbol .comma
        let limit ← expr fuel
        let step ← if ← acceptSymbol .comma then expr fuel else pure (.const (.int 1))
        let slot ← reserve 2
        expectKeyword .kwDo
        let at_ ← lastLine
        let body ← inBlock false do
          let _ ← declare first
          block fuel false
        expectKeyword .kwEnd
        return .numericFor slot start limit step body at_
    else
      let names ← moreNames fuel [first]
      inBlock true do
        expectKeyword .kwIn
        let values ← exprs fuel []
        let slot ← reserve 1
        modifyScope (·.withClosing)
        expectKeyword .kwDo
        let body ← inBlock false do
          for n in names do
            let _ ← declare n
          block fuel false
        expectKeyword .kwEnd
        let site : Site := ⟨(← get).chunk, forLine, some ⟨.forIterator, "for iterator"⟩⟩
        return .genericFor slot names.length values body site

/-- A function that is assigned to a variable or a field. -/
def functionStatement : (fuel : Nat) → Parse Stmt
  | 0 => throw .tooDeep
  | fuel + 1 => do
    let at_ ← lastLine
    let first ← name
    let target ← functionName fuel (← nameExpr first)
    if ← acceptSymbol .colon then
      let key ← name
      let target := Expr.index target (.const (.str key)) (← lastLine)
      let code ← functionBody fuel true
      return .assign [target] [.function code] at_
    else
      let code ← functionBody fuel false
      checkTarget target
      return .assign [target] [.function code] at_

/-- A label, and the empty statements and labels that follow it. -/
def labelStatement : (fuel : Nat) → Parse (List Stmt)
  | 0 => throw .tooDeep
  | fuel + 1 => do
    let label ← name
    expectSymbol .doubleColon
    let more ← emptyStatements fuel
    let f ← scope
    if f.hasLabel label then fail
    match f.withLabel? label (endsBlock false (← token)) with
    | none => fail
    | some f =>
      modifyScope fun _ => f
      return .label label :: more

def emptyStatements : (fuel : Nat) → Parse (List Stmt)
  | 0 => throw .tooDeep
  | fuel + 1 => do
    if ← acceptSymbol .semicolon then emptyStatements fuel
    else if ← acceptSymbol .doubleColon then
      let first ← nested (labelStatement fuel)
      return first ++ (← emptyStatements fuel)
    else return []

def localStatement : (fuel : Nat) → Parse (List Stmt)
  | 0 => throw .tooDeep
  | fuel + 1 => do
    let names ← attributedNames fuel []
    let isClosing (n : Octets × Option Octets) : Bool := n.2 == some (Octets.ofString "close")
    if 1 < (names.filter isClosing).length then fail
    let values ← if ← acceptSymbol .assign then exprs fuel [] else pure []
    let at_ ← lastLine
    let known : Option Value := match names.getLast?, values.getLast? with
      | some (_, some mark), some (.const v) =>
        if mark = Octets.ofString "const" ∧ names.length = values.length then some v
        else none
      | _, _ => none
    let fresh := if known.isSome then names.dropLast else names
    let slot := (← scope).slot
    for (n, mark) in fresh do
      let _ ← declare n (if mark.isSome then .fixed else .plain)
    match known, names.getLast? with
    | some v, some (n, _) => modifyScope (·.withKnown n v)
    | _, _ => pure ()
    let closing := (fresh.zipIdx.filter fun (n, _) => isClosing n).map fun (n, i) =>
      Stmt.closing (slot + i) n.1.text at_ default
    if !closing.isEmpty then modifyScope (·.withClosing)
    return .locals slot fresh.length values :: closing

/-- A call or an assignment. -/
def expressionStatement : (fuel : Nat) → Parse (List Stmt)
  | 0 => throw .tooDeep
  | fuel + 1 => do
    let e ← suffixed fuel
    if (← isSymbol .assign) || (← isSymbol .comma) then
      let targets ← moreTargets fuel [e]
      let values ← exprs fuel []
      return [.assign targets values (← lastLine)]
    else
      match e with
      | .call .. => return [.call e]
      | .method .. => return [.call e]
      | _ => fail

/-- The targets of an assignment to the sign behind them; those read are `done`, newest first. -/
def moreTargets : (fuel : Nat) → List Expr → Parse (List Expr)
  | 0, _ => throw .tooDeep
  | fuel + 1, done => do
    match done with
    | e :: _ => checkTarget e
    | [] => pure ()
    if ← acceptSymbol .comma then
      let e ← suffixed fuel
      nested (moreTargets fuel (e :: done))
    else
      expectSymbol .assign
      return done.reverse

def returnStatement : (fuel : Nat) → Parse Stmt
  | 0 => throw .tooDeep
  | fuel + 1 => do
    advance
    let t ← token
    let values ← if endsBlock true t ∨ t = .symbol .semicolon then pure [] else exprs fuel []
    let _ ← acceptSymbol .semicolon
    if !endsBlock true (← token) then fail
    return .ofReturn (← scope).closes values

end

/-- A whole script: a function that takes any arguments. -/
def script (fuel : Nat) : Parse Function := do
  checkToken
  let own : FunctionScope :=
    { vararg := true, captures := [(Octets.ofString environmentName, .plain, .upvalue 0)] }
  modify fun r => { r with functions := [own] }
  modifyScope (·.opened false)
  let body ← statements fuel []
  if (← token) ≠ .done then fail
  let labelled ← blockHasLabel
  let (f, waiting) := (← scope).closed
  if !waiting.isEmpty then fail
  modifyScope fun _ => f
  closeFunction 0 (.ofStatements labelled body)

end Parse

/-- The function that a list of tokens is. -/
def Function.ofTokens (chunk : String) (tokens : List Lexeme) : Except SyntaxFault Function :=
  ((Parse.script (16 * tokens.length + 64)).run { chunk := chunk, tokens := tokens }).map (·.1)

/-- The function that a text is.  Messages name it by `chunk`. -/
def Function.ofText (chunk : String) (text : Octets) : Except SyntaxFault Function :=
  Function.ofTokens chunk (Token.list text)

end LuaConfig.Lua
