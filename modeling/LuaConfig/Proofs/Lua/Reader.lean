/-
Runs of the readers of code.

A run is given with the reader that it begins with and the one that it ends with, lines included.
A token that can begin no expression is refused (`fails_expr`), and an item with a key is read as
its value is, be the key a name (`run_item_name`) or a literal in brackets (`run_item_bracket`).
Braces around one item make a table of it (`run_constructor_item`).
-/
import LuaConfig.Lua.Code.Parse
import Mathlib

namespace LuaConfig.Lua.Parse

/-- A reader that fails. -/
def Fails {α : Type} (p : Parse α) (r : Reader) : Prop := ∃ fault, p.run r = .error fault

section Rules

variable {α β : Type} {p : Parse α} {f : α → Parse β} {a : α} {r r' : Reader}

theorem run_bind (h : p.run r = .ok (a, r')) : (p >>= f).run r = (f a).run r' := by
  rw [StateT.run_bind, h]
  rfl

theorem Fails.bind (h : Fails p r) : Fails (p >>= f) r := by
  obtain ⟨fault, hfault⟩ := h
  refine ⟨fault, ?_⟩
  rw [StateT.run_bind, hfault]
  rfl

theorem Fails.bind_of_run (h : p.run r = .ok (a, r')) (hf : Fails (f a) r') :
    Fails (p >>= f) r := by
  obtain ⟨fault, hfault⟩ := hf
  exact ⟨fault, (run_bind h).trans hfault⟩

/-- It fails, whatever it begins with. -/
theorem Fails.bind_all (h : ∀ a r', Fails (f a) r') : Fails (p >>= f) r := by
  cases hp : p.run r with
  | error fault => exact .bind ⟨fault, hp⟩
  | ok result => exact .bind_of_run hp (h _ _)

theorem run_nested (hd : r.depth < maxDepth)
    (h : p.run { r with depth := r.depth + 1 } = .ok (a, r')) :
    (nested p).run r = .ok (a, { r' with depth := r.depth }) := by
  simp only [nested, StateT.run_bind, StateT.run_get, pure_bind, if_neg (not_le.mpr hd),
    StateT.run_modify]
  rw [h]
  rfl

theorem fails_nested_of_le (hd : maxDepth ≤ r.depth) : Fails (nested p) r := by
  refine ⟨.tooDeep, ?_⟩
  simp only [Parse.nested, StateT.run_bind, StateT.run_get, pure_bind, if_pos hd]
  rfl

theorem Fails.nested (h : Fails p { r with depth := r.depth + 1 }) : Fails (nested p) r := by
  rcases Nat.lt_or_ge r.depth maxDepth with hd | hd
  · obtain ⟨fault, hfault⟩ := h
    refine ⟨fault, ?_⟩
    simp only [Parse.nested, StateT.run_bind, StateT.run_get, pure_bind, if_neg (not_le.mpr hd),
      StateT.run_modify]
    rw [hfault]
    rfl
  · exact fails_nested_of_le hd

end Rules

/-! ### Tokens -/

section Tokens

variable {chunk : String} {n d : Nat} {fs : List FunctionScope} {t u : Lexeme} {ts : List Lexeme}

theorem run_token :
    token.run ⟨chunk, t :: ts, n, d, fs⟩ = .ok (t.token, ⟨chunk, t :: ts, n, d, fs⟩) := rfl

theorem run_line :
    line.run ⟨chunk, t :: ts, n, d, fs⟩ = .ok (t.line, ⟨chunk, t :: ts, n, d, fs⟩) := rfl

theorem fails_fail {α : Type} : Fails (fail (α := α)) ⟨chunk, t :: ts, n, d, fs⟩ :=
  .bind_of_run run_line ⟨_, rfl⟩

theorem run_checkToken (ht : t.token ≠ .malformed) :
    checkToken.run ⟨chunk, t :: ts, n, d, fs⟩ = .ok ((), ⟨chunk, t :: ts, n, d, fs⟩) := by
  rw [checkToken, run_bind run_token, if_neg ht]
  rfl

theorem run_advance (hu : u.token ≠ .malformed) :
    advance.run ⟨chunk, t :: u :: ts, n, d, fs⟩ = .ok ((), ⟨chunk, u :: ts, t.line, d, fs⟩) := by
  rw [advance, run_bind run_line, StateT.run_bind, StateT.run_modify]
  exact run_checkToken hu

theorem run_isSymbol (s : Symbol) : (isSymbol s).run ⟨chunk, t :: ts, n, d, fs⟩ =
    .ok (decide (t.token = .symbol s), ⟨chunk, t :: ts, n, d, fs⟩) := rfl

theorem run_refuseSymbol {s : Symbol} (ht : t.token ≠ .symbol s) :
    (acceptSymbol s).run ⟨chunk, t :: ts, n, d, fs⟩ = .ok (false, ⟨chunk, t :: ts, n, d, fs⟩) := by
  rw [acceptSymbol, run_bind (run_isSymbol s), decide_eq_false ht]
  rfl

theorem run_refuseKeyword {k : Keyword} (hk : t.token ≠ .keyword k) :
    (acceptKeyword k).run ⟨chunk, t :: ts, n, d, fs⟩ = .ok (false, ⟨chunk, t :: ts, n, d, fs⟩) := by
  have his : (isKeyword k).run ⟨chunk, t :: ts, n, d, fs⟩ =
    .ok (decide (t.token = .keyword k), ⟨chunk, t :: ts, n, d, fs⟩) := rfl
  rw [acceptKeyword, run_bind his, decide_eq_false hk]
  rfl

theorem run_expectSymbol {s : Symbol} (ht : t.token = .symbol s) (hu : u.token ≠ .malformed) :
    (expectSymbol s).run ⟨chunk, t :: u :: ts, n, d, fs⟩ =
      .ok ((), ⟨chunk, u :: ts, t.line, d, fs⟩) := by
  have haccept : (acceptSymbol s).run ⟨chunk, t :: u :: ts, n, d, fs⟩ =
      .ok (true, ⟨chunk, u :: ts, t.line, d, fs⟩) := by
    rw [acceptSymbol, run_bind (run_isSymbol s), decide_eq_true ht, if_pos rfl,
      run_bind (run_advance hu)]
    rfl
  rw [expectSymbol, run_bind haccept]
  rfl

theorem run_nextIsAssign (hu : u.token ≠ .malformed) :
    nextIsAssign.run ⟨chunk, t :: u :: ts, n, d, fs⟩ =
      .ok (decide (u.token = .symbol .assign), ⟨chunk, t :: u :: ts, n, d, fs⟩) := by
  simp only [nextIsAssign, StateT.run_bind, StateT.run_get, pure_bind, if_neg hu]
  rfl

end Tokens

/-! ### What begins no expression -/

/-- A token that can begin no expression. -/
structure BeginsNone (t : Token) : Prop where
  unary : unary? t = none
  literal : literal? t = none
  name : ∀ s, t ≠ .name s
  symbol : ∀ s ∈ [Symbol.ellipsis, .openBrace, .openParen], t ≠ .symbol s
  keyword : t ≠ .keyword .kwFunction

section Refusals

variable {chunk : String} {n d : Nat} {fs : List FunctionScope} {t : Lexeme} {ts : List Lexeme}

theorem fails_primary (h : BeginsNone t.token) (fuel : Nat) :
    Fails (primary fuel) ⟨chunk, t :: ts, n, d, fs⟩ := by
  cases fuel with
  | zero => exact ⟨.tooDeep, rfl⟩
  | succ fuel =>
    rw [primary]
    refine .bind_of_run run_token ?_
    split
    · next s heq => exact absurd heq (h.name s)
    · next heq => exact absurd heq (h.symbol _ (by simp))
    · exact fails_fail

theorem fails_suffixed (h : BeginsNone t.token) (fuel : Nat) :
    Fails (suffixed fuel) ⟨chunk, t :: ts, n, d, fs⟩ := by
  cases fuel with
  | zero => exact ⟨.tooDeep, rfl⟩
  | succ fuel =>
    rw [suffixed]
    exact (fails_primary h fuel).bind

theorem fails_simple (h : BeginsNone t.token) (fuel : Nat) :
    Fails (simple fuel) ⟨chunk, t :: ts, n, d, fs⟩ := by
  cases fuel with
  | zero => exact ⟨.tooDeep, rfl⟩
  | succ fuel =>
    rw [simple]
    refine .bind_of_run run_token ?_
    simp only [h.literal]
    refine .bind_of_run (run_isSymbol .ellipsis) ?_
    rw [decide_eq_false (h.symbol _ (by simp)), if_neg (by decide)]
    refine .bind_of_run (run_isSymbol .openBrace) ?_
    rw [decide_eq_false (h.symbol _ (by simp)), if_neg (by decide)]
    refine .bind_of_run (run_refuseKeyword h.keyword) ?_
    rw [if_neg (by decide)]
    exact fails_suffixed h fuel

theorem fails_operand (h : BeginsNone t.token) (fuel limit : Nat) :
    Fails (operand fuel limit) ⟨chunk, t :: ts, n, d, fs⟩ := by
  cases fuel with
  | zero => exact ⟨.tooDeep, rfl⟩
  | succ fuel =>
    rw [operand]
    refine .nested (.bind_of_run run_token ?_)
    simp only [h.unary]
    exact (fails_simple h fuel).bind

theorem fails_expr (h : BeginsNone t.token) (fuel : Nat) :
    Fails (expr fuel) ⟨chunk, t :: ts, n, d, fs⟩ := by
  cases fuel with
  | zero => exact ⟨.tooDeep, rfl⟩
  | succ fuel =>
    rw [expr]
    exact fails_operand h fuel 0

/-- An expression takes a level of nesting and some fuel. -/
theorem bounds_of_run_expr {fuel : Nat} {r : Reader} {result : Expr × Reader}
    (h : (expr fuel).run r = .ok result) : r.depth < maxDepth ∧ 3 ≤ fuel := by
  have hfails : ¬ Fails (expr fuel) r := by
    rintro ⟨fault, hfault⟩
    rw [h] at hfault
    cases hfault
  -- an expression, its operand and what the operand begins with each take some of the fuel
  match fuel with
  | 0 => exact absurd ⟨.tooDeep, rfl⟩ hfails
  | 1 => exact absurd ⟨.tooDeep, rfl⟩ hfails
  | 2 =>
    refine absurd ?_ hfails
    rw [expr, operand]
    refine .nested (.bind_all fun t _ => ?_)
    dsimp only
    split
    · exact .bind_all fun _ _ => .bind_all fun _ _ => .bind_all fun _ _ =>
        .bind_all fun _ _ => ⟨.tooDeep, rfl⟩
    · exact .bind_all fun _ _ => ⟨.tooDeep, rfl⟩
  | fuel + 3 =>
    refine ⟨not_le.mp fun hd => hfails ?_, by omega⟩
    rw [expr, operand]
    exact fails_nested_of_le hd

end Refusals

/-! ### Items with a key -/

section Items

variable {chunk : String} {n d fuel line₀ line₁ line₂ line₃ : Nat} {fs : List FunctionScope}
  {t u : Lexeme} {ts : List Lexeme} {v : Expr} {r : Reader}

theorem unary_of_literal {t : Token} {v : Value} (h : literal? t = some v) : unary? t = none := by
  cases t with
  | keyword k =>
    cases k with
    | kwNot =>
      have hnone : literal? (.keyword .kwNot) = none := rfl
      rw [hnone] at h
      cases h
    | _ => rfl
  | symbol s =>
    have hnone : literal? (.symbol s) = none := rfl
    rw [hnone] at h
    cases h
  | _ => rfl

theorem run_expr_literal {value : Value} (ht : literal? t.token = some value)
    (hu : operator? u.token = none) (hsound : u.token ≠ .malformed) (hd : d < maxDepth) :
    (expr (fuel + 3)).run ⟨chunk, t :: u :: ts, n, d, fs⟩ =
      .ok (.const value, ⟨chunk, u :: ts, t.line, d, fs⟩) := by
  have hsimple : (simple (fuel + 1)).run ⟨chunk, t :: u :: ts, n, d + 1, fs⟩ =
      .ok (.const value, ⟨chunk, u :: ts, t.line, d + 1, fs⟩) := by
    rw [simple, run_bind run_token]
    simp only [ht]
    rw [run_bind (run_advance hsound)]
    rfl
  have hoperators : (operators (fuel + 1) 0 (.const value)).run
      ⟨chunk, u :: ts, t.line, d + 1, fs⟩ =
        .ok (.const value, ⟨chunk, u :: ts, t.line, d + 1, fs⟩) := by
    rw [operators, run_bind run_token]
    simp only [hu]
    rfl
  rw [expr, operand]
  refine run_nested hd (Eq.trans ?_ hoperators)
  rw [run_bind run_token]
  simp only [unary_of_literal ht]
  exact run_bind hsimple

/-- An item behind a name. -/
theorem run_item_name {s : Octets} (ht : t.token ≠ .malformed)
    (hv : (expr fuel).run ⟨chunk, t :: ts, line₁, d, fs⟩ = .ok (v, r)) :
    (item (fuel + 1)).run
        ⟨chunk, ⟨.name s, line₀⟩ :: ⟨.symbol .assign, line₁⟩ :: t :: ts, n, d, fs⟩ =
      .ok (.keyed (.const (.str s)) v r.lastLine, r) := by
  have hassign : (⟨.symbol .assign, line₁⟩ : Lexeme).token ≠ .malformed := by simp
  rw [item, run_bind run_token]
  dsimp only
  rw [run_bind (run_nextIsAssign hassign), decide_eq_true rfl, if_pos rfl,
    run_bind (run_advance hassign), run_bind (run_advance ht), run_bind hv]
  rfl

/-- An item behind a literal in brackets. -/
theorem run_item_bracket {k : Token} {value : Value} (hk : literal? k = some value)
    (ht : t.token ≠ .malformed)
    (hv : (expr fuel).run ⟨chunk, t :: ts, line₃, d, fs⟩ = .ok (v, r)) :
    (item (fuel + 1)).run
        ⟨chunk, ⟨.symbol .openBracket, line₀⟩ :: ⟨k, line₁⟩ :: ⟨.symbol .closeBracket, line₂⟩ ::
          ⟨.symbol .assign, line₃⟩ :: t :: ts, n, d, fs⟩ =
      .ok (.keyed (.const value) v r.lastLine, r) := by
  obtain ⟨hd, hfuel⟩ := bounds_of_run_expr hv
  obtain ⟨more, rfl⟩ : ∃ more, fuel = more + 3 := ⟨fuel - 3, by omega⟩
  have hsound : (⟨k, line₁⟩ : Lexeme).token ≠ .malformed := by
    rintro rfl
    cases hk
  rw [item, run_bind run_token]
  dsimp only
  rw [run_bind (run_advance hsound), run_bind (run_expr_literal hk rfl (by simp) hd),
    run_bind (run_expectSymbol rfl (by simp)), run_bind (run_expectSymbol rfl ht), run_bind hv]
  rfl

/-- A table constructor with one item in it. -/
theorem run_constructor_item {i : Item} {chunk' : String} {n' d' : Nat} {fs' : List FunctionScope}
    {us : List Lexeme} (hsound : t.token ≠ .malformed) (ht : t.token ≠ .symbol .closeBrace)
    (hu : u.token ≠ .malformed)
    (hi : (item (fuel + 1)).run ⟨chunk, t :: ts, line₀, d, fs⟩ =
      .ok (i, ⟨chunk', ⟨.symbol .closeBrace, line₁⟩ :: u :: us, n', d', fs'⟩)) :
    (constructor (fuel + 3)).run ⟨chunk, ⟨.symbol .openBrace, line₀⟩ :: t :: ts, n, d, fs⟩ =
      .ok (.table [i] line₀, ⟨chunk', u :: us, line₁, d', fs'⟩) := by
  have hitems : (items (fuel + 2) []).run ⟨chunk, t :: ts, line₀, d, fs⟩ =
      .ok ([i], ⟨chunk', u :: us, line₁, d', fs'⟩) := by
    rw [items, run_bind (run_refuseSymbol ht), if_neg (by decide), run_bind hi]
    dsimp only
    rw [run_bind (run_refuseSymbol (by simp)), if_neg (by decide),
      run_bind (run_refuseSymbol (by simp)), if_neg (by decide), run_bind (run_expectSymbol rfl hu)]
    rfl
  rw [constructor, run_bind run_line, run_bind (run_expectSymbol rfl hsound), run_bind hitems]
  rfl

end Items

end LuaConfig.Lua.Parse
