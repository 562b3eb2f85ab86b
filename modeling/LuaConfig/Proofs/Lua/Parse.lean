/-
Reading code off tokens.

`Takes d fs p ts rest good` says that the reader `p`, at depth `d` in the functions `fs`, takes the
tokens `ts` up to `rest` and that its result is `good`.  Readers are composed by `Takes.bind`; what
a reader does to lines is left open.  `Refuses` says that a reader fails.
-/
import LuaConfig.Proofs.Lua.Reader

namespace LuaConfig.Lua.Parse

/-- The state of a reader, but for its lines and the name of its chunk. -/
structure At (d : Nat) (fs : List FunctionScope) (ts : List Token) (r : Reader) : Prop where
  tokens : r.tokens.map (·.token) = ts
  depth : r.depth = d
  functions : r.functions = fs
  sound : Token.malformed ∉ ts

/-- A reader that succeeds: the tokens before and after it, and what its result is. -/
def Takes {α : Type} (d : Nat) (fs : List FunctionScope) (p : Parse α) (ts rest : List Token)
    (good : α → Prop) : Prop :=
  ∀ r, At d fs ts r → ∃ a r', p.run r = .ok (a, r') ∧ At d fs rest r' ∧ good a

/-- A reader that fails. -/
def Refuses {α : Type} (d : Nat) (fs : List FunctionScope) (p : Parse α) (ts : List Token) :
    Prop :=
  ∀ r, At d fs ts r → ∃ fault, p.run r = .error fault

section Rules

variable {α β : Type} {d : Nat} {fs : List FunctionScope} {ts ms rest : List Token}

theorem Takes.pure (a : α) : Takes d fs (pure a) ts ts (· = a) :=
  fun r hr => ⟨a, r, rfl, hr, rfl⟩

theorem Takes.mono {p : Parse α} {good good' : α → Prop} (h : Takes d fs p ts rest good)
    (himp : ∀ a, good a → good' a) : Takes d fs p ts rest good' := by
  intro r hr
  obtain ⟨a, r', h1, h2, h3⟩ := h r hr
  exact ⟨a, r', h1, h2, himp a h3⟩

theorem Takes.bind {p : Parse α} {f : α → Parse β} {good : α → Prop} {good' : β → Prop}
    (h1 : Takes d fs p ts ms good) (h2 : ∀ a, good a → Takes d fs (f a) ms rest good') :
    Takes d fs (p >>= f) ts rest good' := by
  intro r hr
  obtain ⟨a, r', hrun, hat, hgood⟩ := h1 r hr
  obtain ⟨b, r'', hrun', hat', hgood'⟩ := h2 a hgood r' hat
  exact ⟨b, r'', (run_bind hrun).trans hrun', hat', hgood'⟩

/-- The same, for a result that is known. -/
theorem Takes.bind_eq {p : Parse α} {f : α → Parse β} {a : α} {good : β → Prop}
    (h1 : Takes d fs p ts ms (· = a)) (h2 : Takes d fs (f a) ms rest good) :
    Takes d fs (p >>= f) ts rest good :=
  h1.bind fun _ h => h ▸ h2

theorem Takes.bind_refuses {p : Parse α} {f : α → Parse β} {good : α → Prop}
    (h1 : Takes d fs p ts ms good) (h2 : ∀ a, good a → Refuses d fs (f a) ms) :
    Refuses d fs (p >>= f) ts := by
  intro r hr
  obtain ⟨a, r', hrun, hat, hgood⟩ := h1 r hr
  exact Fails.bind_of_run hrun (h2 a hgood r' hat)

theorem Refuses.bind {p : Parse α} {f : α → Parse β} (h : Refuses d fs p ts) :
    Refuses d fs (p >>= f) ts :=
  fun r hr => Fails.bind (h r hr)

/-- What stands one level deeper. -/
theorem Takes.nested {p : Parse α} {good : α → Prop} (hd : d < maxDepth)
    (h : Takes (d + 1) fs p ts rest good) : Takes d fs (nested p) ts rest good := by
  intro r hr
  have hinside : At (d + 1) fs ts { r with depth := r.depth + 1 } :=
    ⟨hr.tokens, by rw [hr.depth], hr.functions, hr.sound⟩
  obtain ⟨a, r', hrun, hat, hgood⟩ := h _ hinside
  have hdepth : r.depth < maxDepth := by rwa [hr.depth]
  exact ⟨a, { r' with depth := r.depth }, run_nested hdepth hrun,
    ⟨hat.tokens, hr.depth, hat.functions, hat.sound⟩, hgood⟩

theorem Refuses.nested {p : Parse α} (h : Refuses (d + 1) fs p ts) :
    Refuses d fs (nested p) ts := by
  intro r hr
  have hinside : At (d + 1) fs ts { r with depth := r.depth + 1 } :=
    ⟨hr.tokens, by rw [hr.depth], hr.functions, hr.sound⟩
  exact Fails.nested (h _ hinside)

end Rules

/-! ### Tokens -/

section Tokens

variable {d : Nat} {fs : List FunctionScope} {t u : Token} {ts : List Token}

theorem At.cons {r : Reader} (h : At d fs (t :: ts) r) :
    ∃ chunk first more n, r = ⟨chunk, first :: more, n, d, fs⟩ ∧ first.token = t ∧
      more.map (·.token) = ts := by
  obtain ⟨chunk, tokens, n, depth, functions⟩ := r
  obtain ⟨htokens, rfl, rfl, -⟩ := h
  obtain ⟨first, more, rfl, hfirst, hmore⟩ := List.map_eq_cons_iff.mp htokens
  exact ⟨chunk, first, more, n, rfl, hfirst, hmore⟩

theorem takes_token : Takes d fs token (t :: ts) (t :: ts) (· = t) := by
  intro r hr
  obtain ⟨chunk, first, more, n, rfl, rfl, -⟩ := hr.cons
  exact ⟨_, _, run_token, hr, rfl⟩

theorem takes_line : Takes d fs line (t :: ts) (t :: ts) (fun _ => True) := by
  intro r hr
  obtain ⟨chunk, first, more, n, rfl, -, -⟩ := hr.cons
  exact ⟨_, _, run_line, hr, trivial⟩

theorem takes_scope : Takes d fs scope ts ts (fun _ => True) := by
  intro r hr
  rw [scope, StateT.run_bind, StateT.run_get, pure_bind]
  cases r.functions with
  | nil => exact ⟨_, r, rfl, hr, trivial⟩
  | cons f outer => exact ⟨f, r, rfl, hr, trivial⟩

theorem takes_checkToken : Takes d fs checkToken (t :: ts) (t :: ts) (fun _ => True) := by
  intro r hr
  have hne : t ≠ .malformed := fun h => hr.sound (by simp [h])
  obtain ⟨chunk, first, more, n, rfl, rfl, -⟩ := hr.cons
  exact ⟨_, _, run_checkToken hne, hr, trivial⟩

/-- Another token follows the one that is left. -/
theorem takes_advance : Takes d fs advance (t :: u :: ts) (u :: ts) (fun _ => True) := by
  intro r hr
  have hne : u ≠ .malformed := fun h => hr.sound (by simp [h])
  have hsound : Token.malformed ∉ u :: ts := fun h => hr.sound (List.mem_cons_of_mem _ h)
  obtain ⟨chunk, first, more, n, rfl, -, hmore⟩ := hr.cons
  obtain ⟨second, rest, rfl, rfl, -⟩ := List.map_eq_cons_iff.mp hmore
  exact ⟨_, _, run_advance hne, ⟨hmore, rfl, rfl, hsound⟩, trivial⟩

theorem takes_isSymbol (s : Symbol) :
    Takes d fs (isSymbol s) (t :: ts) (t :: ts) (· = decide (t = .symbol s)) :=
  takes_token.bind_eq (Takes.pure _)

theorem takes_acceptSymbol (s : Symbol) :
    Takes d fs (acceptSymbol s) (.symbol s :: u :: ts) (u :: ts) (· = true) := by
  refine (takes_isSymbol s).bind_eq ?_
  rw [decide_eq_true rfl, if_pos rfl]
  exact takes_advance.bind fun _ _ => Takes.pure true

theorem takes_refuseSymbol {s : Symbol} (h : t ≠ .symbol s) :
    Takes d fs (acceptSymbol s) (t :: ts) (t :: ts) (· = false) := by
  refine (takes_isSymbol s).bind_eq ?_
  rw [decide_eq_false h, if_neg (by decide)]
  exact Takes.pure false

theorem takes_expectSymbol (s : Symbol) :
    Takes d fs (expectSymbol s) (.symbol s :: u :: ts) (u :: ts) (fun _ => True) := by
  refine (takes_acceptSymbol s).bind_eq ?_
  exact (Takes.pure ()).mono fun _ _ => trivial

end Tokens

/-! ### Operands -/

section Operands

variable {d limit fuel : Nat} {fs : List FunctionScope} {t u : Token} {ts ms rest : List Token}
  {a : Expr} {v : Value}

/-- A token at which an expression ends whose operators bind more strongly than `limit`. -/
def Ends (limit : Nat) (t : Token) : Prop :=
  ∀ op left right, operator? t = some (op, left, right) → left ≤ limit

theorem ends_of_none (h : operator? t = none) : Ends limit t := by
  intro op left right heq
  rw [h] at heq
  cases heq

theorem takes_operators_end (h : Ends limit t) :
    Takes d fs (operators (fuel + 1) limit a) (t :: ts) (t :: ts) (· = a) := by
  rw [operators]
  refine takes_token.bind_eq ?_
  cases hop : operator? t with
  | none => exact Takes.pure a
  | some triple =>
    obtain ⟨op, left, right⟩ := triple
    have hle : left ≤ limit := h op left right hop
    simp only [hle, if_true]
    exact Takes.pure a

theorem takes_operators_next (ms : List Token) {op : Operator} {left right : Nat}
    {good : Expr → Prop} (hop : operator? t = some (op, left, right)) (hlt : limit < left)
    (hb : Takes d fs (operand fuel right) (u :: ts) ms (fun b => ∀ line,
      Takes d fs (operators fuel limit (join op (a.onLine line) b line)) ms rest good)) :
    Takes d fs (operators (fuel + 1) limit a) (t :: u :: ts) rest good := by
  rw [operators]
  refine takes_token.bind_eq ?_
  simp only [hop, if_neg (not_le.mpr hlt)]
  refine takes_line.bind fun line _ => ?_
  refine takes_advance.bind fun _ _ => ?_
  exact hb.bind fun b h => h line

theorem takes_literal (h : literal? t = some v) :
    Takes d fs (simple (fuel + 1)) (t :: u :: ts) (u :: ts) (· = .const v) := by
  rw [simple]
  refine takes_token.bind_eq ?_
  simp only [h]
  exact takes_advance.bind fun _ _ => Takes.pure _

/-- An operand that begins with a literal. -/
theorem takes_operand_literal {good : Expr → Prop} (h : literal? t = some v) (hd : d < maxDepth)
    (hmore : Takes (d + 1) fs (operators (fuel + 1) limit (.const v)) (u :: ts) rest good) :
    Takes d fs (operand (fuel + 2) limit) (t :: u :: ts) rest good := by
  rw [operand]
  refine Takes.nested hd (takes_token.bind_eq ?_)
  simp only [unary_of_literal h]
  exact (takes_literal h).bind_eq hmore

/-- An operand that begins with a minus sign. -/
theorem takes_operand_negate (ms : List Token) {good : Expr → Prop} (hd : d < maxDepth)
    (ha : Takes (d + 1) fs (operand fuel unaryStrength) (u :: ts) ms (fun a => ∀ line,
      Takes (d + 1) fs (operators fuel limit (.unary .negate a line)) ms rest good)) :
    Takes d fs (operand (fuel + 1) limit) (.symbol .minus :: u :: ts) rest good := by
  rw [operand]
  refine Takes.nested hd (takes_token.bind_eq ?_)
  simp only [unary?]
  refine takes_line.bind fun line _ => ?_
  refine takes_advance.bind fun _ _ => ?_
  exact ha.bind fun a h => (Takes.pure _).bind_eq (h line)

/-- An operand that is a table constructor. -/
theorem takes_operand_constructor {good : Expr → Prop} (hd : d < maxDepth) (hend : Ends limit u)
    (h : Takes (d + 1) fs (constructor fuel) (.symbol .openBrace :: ts) (u :: rest) good) :
    Takes d fs (operand (fuel + 2) limit) (.symbol .openBrace :: ts) (u :: rest) good := by
  rw [operand]
  refine Takes.nested hd (takes_token.bind_eq ?_)
  simp only [unary?]
  have hsimple : Takes (d + 1) fs (simple (fuel + 1)) (.symbol .openBrace :: ts) (u :: rest)
      good := by
    rw [simple]
    have hnone : literal? (.symbol .openBrace) = none := rfl
    refine takes_token.bind_eq ?_
    simp only [hnone]
    refine (takes_isSymbol .ellipsis).bind_eq ?_
    rw [decide_eq_false (by simp), if_neg (by decide)]
    refine (takes_isSymbol .openBrace).bind_eq ?_
    rw [decide_eq_true rfl, if_pos rfl]
    exact h
  exact hsimple.bind fun e he => (takes_operators_end hend).mono fun e' he' => he' ▸ he

end Operands

/-! ### Table constructors -/

section Constructors

variable {d fuel : Nat} {fs : List FunctionScope} {t u : Token} {ts rest : List Token}

/-- An item that begins with neither a name nor a bracket. -/
theorem takes_item_positional {good : Expr → Prop} (hname : ∀ s, t ≠ .name s)
    (hopen : t ≠ .symbol .openBracket) (h : Takes d fs (expr fuel) (t :: ts) rest good) :
    Takes d fs (item (fuel + 1)) (t :: ts) rest (fun i => ∃ e, i = .positional e ∧ good e) := by
  rw [item]
  refine takes_token.bind_eq ?_
  have hlast : Takes d fs (do return Item.positional (← expr fuel)) (t :: ts) rest
      (fun i => ∃ e, i = .positional e ∧ good e) :=
    h.bind fun e he => (Takes.pure _).mono fun i hi => ⟨e, hi, he⟩
  split
  · next s => exact absurd rfl (hname s)
  · exact absurd rfl hopen
  · exact hlast

/-- An item behind a name. -/
theorem takes_item_name {good : Expr → Prop} (s : Octets)
    (h : Takes d fs (expr fuel) (t :: ts) rest good) :
    Takes d fs (item (fuel + 1)) (.name s :: .symbol .assign :: t :: ts) rest
      (fun i => ∃ e line, i = .keyed (.const (.str s)) e line ∧ good e) := by
  intro r hr
  have hsound : Token.malformed ∉ t :: ts := fun hmem => hr.sound (by simp [hmem])
  obtain ⟨chunk, ⟨_, line₀⟩, _, n, rfl, rfl, h1⟩ := hr.cons
  obtain ⟨⟨_, line₁⟩, _, rfl, rfl, h2⟩ := List.map_eq_cons_iff.mp h1
  obtain ⟨first, more, rfl, rfl, -⟩ := List.map_eq_cons_iff.mp h2
  obtain ⟨e, r', hrun, hat, he⟩ := h ⟨chunk, first :: more, line₁, d, fs⟩ ⟨h2, rfl, rfl, hsound⟩
  have hne : first.token ≠ .malformed := fun heq => hsound (by simp [heq])
  exact ⟨_, r', run_item_name hne hrun, hat, e, _, rfl, he⟩

/-- An item behind a literal in brackets. -/
theorem takes_item_bracket {k : Token} {value : Value} {good : Expr → Prop}
    (hk : literal? k = some value) (h : Takes d fs (expr fuel) (t :: ts) rest good) :
    Takes d fs (item (fuel + 1))
      (.symbol .openBracket :: k :: .symbol .closeBracket :: .symbol .assign :: t :: ts) rest
      (fun i => ∃ e line, i = .keyed (.const value) e line ∧ good e) := by
  intro r hr
  have hsound : Token.malformed ∉ t :: ts := fun hmem => hr.sound (by simp [hmem])
  obtain ⟨chunk, ⟨_, line₀⟩, _, n, rfl, rfl, h1⟩ := hr.cons
  obtain ⟨⟨_, line₁⟩, _, rfl, rfl, h2⟩ := List.map_eq_cons_iff.mp h1
  obtain ⟨⟨_, line₂⟩, _, rfl, rfl, h3⟩ := List.map_eq_cons_iff.mp h2
  obtain ⟨⟨_, line₃⟩, _, rfl, rfl, h4⟩ := List.map_eq_cons_iff.mp h3
  obtain ⟨first, more, rfl, rfl, -⟩ := List.map_eq_cons_iff.mp h4
  obtain ⟨e, r', hrun, hat, he⟩ := h ⟨chunk, first :: more, line₃, d, fs⟩ ⟨h4, rfl, rfl, hsound⟩
  have hne : first.token ≠ .malformed := fun heq => hsound (by simp [heq])
  exact ⟨_, r', run_item_bracket hk hne hrun, hat, e, _, rfl, he⟩

/-- Items with a comma behind each, and the brace behind them. -/
theorem takes_items {α : Type} {tokens : α → List Token} {good : α → Item → Prop} {need : Nat}
    (xs : List α)
    (hitem : ∀ x ∈ xs, ∀ n u ts, need ≤ n →
      Takes d fs (item n) (tokens x ++ .symbol .comma :: u :: ts) (.symbol .comma :: u :: ts)
        (good x))
    (hhead : ∀ x ∈ xs, ∃ t ts, tokens x = t :: ts ∧ t ≠ .symbol .closeBrace) :
    ∀ fuel done, need + xs.length < fuel →
      Takes d fs (items fuel done)
        ((xs.flatMap fun x => tokens x ++ [.symbol .comma]) ++ .symbol .closeBrace :: u :: rest)
        (u :: rest) (fun is => ∃ new, is = done.reverse ++ new ∧ List.Forall₂ good xs new) := by
  induction xs with
  | nil =>
    intro fuel done hfuel
    obtain ⟨n, rfl⟩ : ∃ n, fuel = n + 1 := ⟨fuel - 1, by omega⟩
    rw [items, List.flatMap_nil, List.nil_append]
    refine (takes_acceptSymbol .closeBrace).bind_eq ?_
    rw [if_pos rfl]
    exact (Takes.pure _).mono fun is his => ⟨[], by rw [his, List.append_nil], .nil⟩
  | cons x xs ih =>
    intro fuel done hfuel
    rw [List.length_cons] at hfuel
    obtain ⟨n, rfl⟩ : ∃ n, fuel = n + 1 := ⟨fuel - 1, by omega⟩
    obtain ⟨t, us, hx, ht⟩ := hhead x (by simp)
    have hmore := ih (fun y hy => hitem y (by simp [hy])) (fun y hy => hhead y (by simp [hy])) n
    -- what follows the comma is not empty: there is at least the closing brace
    obtain ⟨w, ws, hws⟩ : ∃ w ws, ((xs.flatMap fun x => tokens x ++ [.symbol .comma]) ++
        .symbol .closeBrace :: u :: rest) = w :: ws := by
      cases hl : (xs.flatMap fun x => tokens x ++ [.symbol .comma]) with
      | nil => exact ⟨_, _, rfl⟩
      | cons w ws => exact ⟨w, _, rfl⟩
    have hfirst := hitem x (by simp) n w ws (by omega)
    rw [items, List.flatMap_cons, List.append_assoc, List.append_assoc, List.singleton_append, hws]
    rw [hx, List.cons_append] at hfirst ⊢
    refine (takes_refuseSymbol ht).bind_eq ?_
    rw [if_neg (by decide)]
    refine hfirst.bind fun i hi => ?_
    refine (takes_acceptSymbol .comma).bind_eq ?_
    rw [if_pos rfl, ← hws]
    refine (hmore (i :: done) (by omega)).mono ?_
    rintro is ⟨new, rfl, hnew⟩
    exact ⟨i :: new, by simp, .cons hi hnew⟩

theorem takes_constructor {good : List Item → Prop}
    (h : Takes d fs (items fuel []) (t :: ts) (u :: rest) good) :
    Takes d fs (constructor (fuel + 1)) (.symbol .openBrace :: t :: ts) (u :: rest)
      (fun e => ∃ is line, e = .table is line ∧ good is) := by
  rw [constructor]
  refine takes_line.bind fun line _ => ?_
  refine (takes_expectSymbol .openBrace).bind fun _ _ => ?_
  exact h.bind fun is his => (Takes.pure _).mono fun e he => ⟨is, line, he, his⟩

end Constructors

/-! ### Scripts that return a value -/

section Scripts

variable {d fuel : Nat} {fs : List FunctionScope} {t : Token} {ts : List Token}
  {good : Expr → Prop}

theorem takes_exprs_single (h : Takes d fs (expr fuel) ts [.done] good) :
    Takes d fs (exprs (fuel + 1) []) ts [.done] (fun es => ∃ e, es = [e] ∧ good e) := by
  rw [exprs]
  refine h.bind fun e he => (takes_refuseSymbol (by simp)).bind_eq ?_
  rw [if_neg (by decide)]
  exact (Takes.pure _).mono fun es hes => ⟨e, hes, he⟩

theorem ofReturn_single {closes : Bool} {e : Expr} (h : e.isMulti = false) :
    Stmt.ofReturn closes [e] = .return [e] := by
  cases e with
  | call f args site => exact absurd h (by simp [Expr.isMulti])
  | method object name line args site => exact absurd h (by simp [Expr.isMulti])
  | _ => cases closes <;> rfl

/-- A statement that returns one value which is no call. -/
theorem takes_return (hend : endsBlock true t = false) (hsemicolon : t ≠ .symbol .semicolon)
    (hplain : ∀ e, good e → e.isMulti = false)
    (h : Takes d fs (expr fuel) (t :: ts) [.done] good) :
    Takes d fs (returnStatement (fuel + 2)) (.keyword .kwReturn :: t :: ts) [.done]
      (fun s => ∃ e, s = .return [e] ∧ good e) := by
  rw [returnStatement]
  refine takes_advance.bind fun _ _ => takes_token.bind_eq ?_
  rw [hend]
  simp only [Bool.false_eq_true, hsemicolon, or_self, if_false]
  refine (takes_exprs_single h).bind ?_
  rintro es ⟨e, rfl, he⟩
  refine (takes_refuseSymbol (by simp)).bind fun _ _ => takes_token.bind_eq ?_
  have hdone : endsBlock true .done = true := rfl
  have hmulti := hplain e he
  simp only [hdone, Bool.not_true, Bool.false_eq_true, if_false]
  refine takes_scope.bind fun f _ => ?_
  rw [ofReturn_single hmulti]
  exact (Takes.pure _).mono fun s hs => ⟨e, hs, he⟩

/-- The innermost scope of a script. -/
def scriptScope : FunctionScope :=
  ({ vararg := true, captures := [(Octets.ofString environmentName, .plain, .upvalue 0)] } :
    FunctionScope).opened false

/-- The function of a script that only returns a value. -/
def returning (chunk : String) (e : Expr) : Function :=
  .mk chunk 0 true 0 [.upvalue 0] (.mk false [.return [e]])

theorem takes_statements_return (hd : d < maxDepth)
    (h : Takes (d + 1) fs (returnStatement fuel) (.keyword .kwReturn :: ts) [.done]
      (fun s => ∃ e, s = .return [e] ∧ good e)) :
    Takes d fs (statements (fuel + 1) []) (.keyword .kwReturn :: ts) [.done]
      (fun body => ∃ e, body = [.return [e]] ∧ good e) := by
  rw [statements]
  refine takes_token.bind_eq ?_
  have hend : endsBlock true (.keyword .kwReturn) = false := rfl
  simp only [hend, Bool.false_eq_true, if_false, if_true]
  refine (Takes.nested hd h).bind ?_
  rintro s ⟨e, rfl, he⟩
  exact (Takes.pure _).mono fun body hbody => ⟨e, hbody, he⟩

/-- A script that returns a value is read as the function that does so. -/
theorem script_return {r : Reader} (hr : r.tokens.map (·.token) = .keyword .kwReturn :: ts)
    (hdepth : r.depth = 0) (hsound : Token.malformed ∉ Token.keyword .kwReturn :: ts)
    (h : Takes 0 [scriptScope] (statements fuel []) (.keyword .kwReturn :: ts) [.done]
      (fun body => ∃ e, body = [.return [e]] ∧ good e)) :
    ∃ chunk e r', (script fuel).run r = .ok (returning chunk e, r') ∧ good e := by
  have hat : At 0 r.functions (.keyword .kwReturn :: ts) r := ⟨hr, hdepth, rfl, hsound⟩
  obtain ⟨_, r1, hrun1, hat1, -⟩ := takes_checkToken r hat
  have hat2 : At 0 [scriptScope] (.keyword .kwReturn :: ts)
      { r1 with functions := [scriptScope] } := ⟨hat1.tokens, hat1.depth, rfl, hat1.sound⟩
  obtain ⟨_, r2, hrun2, hat3, e, rfl, he⟩ := h _ hat2
  obtain ⟨chunk, first, more, lastLine, rfl, hfirst, -⟩ := hat3.cons
  refine ⟨chunk, e, { chunk := chunk, tokens := first :: more, lastLine := lastLine }, ?_, he⟩
  replace hrun1 : StateT.run checkToken r = pure (_, r1) := hrun1
  replace hrun2 : StateT.run (statements fuel []) _ = pure (_, _) := hrun2
  rw [scriptScope] at hrun2
  simp only [script, token, blockHasLabel, scope, modifyScope, closeFunction, StateT.run_bind,
    StateT.run_get, StateT.run_modify, StateT.run_pure, pure_bind, hrun1, hrun2, hfirst, ne_eq,
    not_true_eq_false, if_false]
  rfl

/-- No expression begins with `return`. -/
theorem beginsNone_return : BeginsNone (.keyword .kwReturn) :=
  ⟨rfl, rfl, by simp, by simp, by simp⟩

/-- A script does not begin with `return return`. -/
theorem script_refuses_return (fuel : Nat) {r : Reader}
    (hr : r.tokens.map (·.token) = .keyword .kwReturn :: .keyword .kwReturn :: ts)
    (hdepth : r.depth = 0) (hsound : Token.malformed ∉ r.tokens.map (·.token)) :
    ∃ fault, (script (fuel + 8)).run r = .error fault := by
  have hat : At 0 r.functions (.keyword .kwReturn :: .keyword .kwReturn :: ts) r :=
    ⟨hr, hdepth, rfl, hr ▸ hsound⟩
  obtain ⟨_, r1, hrun1, hat1, -⟩ := takes_checkToken r hat
  have hat2 : At 0 [scriptScope] (.keyword .kwReturn :: .keyword .kwReturn :: ts)
      { r1 with functions := [scriptScope] } := ⟨hat1.tokens, hat1.depth, rfl, hat1.sound⟩
  have hreturn : Refuses 1 [scriptScope] (returnStatement (fuel + 7))
      (.keyword .kwReturn :: .keyword .kwReturn :: ts) := by
    have hend : endsBlock true (.keyword .kwReturn) = false := rfl
    rw [returnStatement]
    refine takes_advance.bind_refuses fun _ _ => takes_token.bind_refuses ?_
    rintro _ rfl
    rw [hend]
    simp only [Bool.false_eq_true, reduceCtorEq, or_self, if_false]
    refine Refuses.bind ?_
    rw [exprs]
    refine Refuses.bind fun r hr => ?_
    obtain ⟨chunk, first, more, n, rfl, hfirst, -⟩ := hr.cons
    exact fails_expr (hfirst ▸ beginsNone_return) _
  -- the second word begins no expression, and so the statement fails
  have hstatements : Refuses 0 [scriptScope] (statements (fuel + 8) [])
      (.keyword .kwReturn :: .keyword .kwReturn :: ts) := by
    have hend : endsBlock true (.keyword .kwReturn) = false := rfl
    rw [statements]
    refine takes_token.bind_refuses ?_
    rintro _ rfl
    simp only [hend, Bool.false_eq_true, if_false, if_true]
    exact hreturn.nested.bind
  obtain ⟨fault, hfault⟩ := hstatements _ hat2
  refine ⟨fault, ?_⟩
  replace hrun1 : StateT.run checkToken r = pure (_, r1) := hrun1
  rw [scriptScope] at hfault
  simp only [script, modifyScope, StateT.run_bind, StateT.run_modify, pure_bind, hrun1, hfault]
  rfl

end Scripts

end LuaConfig.Lua.Parse
