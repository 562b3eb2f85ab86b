/-
The code of a level's script.

`IsContent` says which code a content is read as.  A script is read as the function that returns
its table (`function_script`); reading it as an expression fails before that.
-/
import LuaConfig.Proofs.Lua.Parse
import LuaConfig.Proofs.Script.Tokens
import LuaConfig.Sandbox.Run

namespace LuaConfig.Script

open Lua Lua.Octets Lua.Parse Decimal

/-! ### The code of contents -/

/-- Code behind a minus sign, if there is one. -/
def IsSigned (negative : Bool) (a e : Expr) : Prop :=
  if negative then ∃ line, e = .unary .negate a line else e = a

/-- The code of a number. -/
def IsNumber (x : Float) (e : Expr) : Prop :=
  match Binary64.ofFloat x with
  | .nan => ∃ line, e = .binary (.arithmetic .div) (.const (.int 0)) (.const (.int 0)) line
  | .infinite negative =>
    ∃ a line, IsSigned negative (.const (.int 1)) a ∧
      e = .binary (.arithmetic .div) a (.const (.int 0)) line
  | .finite negative m q => IsSigned negative (.const (magnitudeNumber m q).toValue) e

def IsScalar : Scalar → Expr → Prop
  | .bool b, e => e = .const (.bool b)
  | .number x, e => IsNumber x e
  | .string s, e => e = .const (.str (ofString s))

/-- The code of an item of a table. -/
def IsItem : Option String × Scalar → Item → Prop
  | (none, v), i => ∃ e, i = .positional e ∧ IsScalar v e
  | (some name, v), i => ∃ e line, i = .keyed (.const (.str (ofString name))) e line ∧ IsScalar v e

def IsContent : Content → Expr → Prop
  | .one v, e => IsScalar v e
  | .list items, e => ∃ is line, e = .table is line ∧ List.Forall₂ IsItem items is

/-- The code of a field. -/
def IsField (field : String × Content) (i : Item) : Prop :=
  ∃ e line, i = .keyed (.const (.str (ofString field.1))) e line ∧ IsContent field.2 e

/-- The code of a level's table. -/
def IsTable (fields : List (String × Content)) (e : Expr) : Prop :=
  ∃ is line, e = .table is line ∧ List.Forall₂ IsField fields is

theorem isMulti_of_isSigned {negative : Bool} {v : Value} {e : Expr}
    (h : IsSigned negative (.const v) e) : e.isMulti = false := by
  cases negative
  · obtain rfl : e = .const v := h
    rfl
  · obtain ⟨line, rfl⟩ : ∃ line, e = .unary .negate (.const v) line := h
    rfl

theorem isMulti_of_isScalar {v : Scalar} {e : Expr} (h : IsScalar v e) : e.isMulti = false := by
  cases v with
  | bool b =>
    obtain rfl : e = .const (.bool b) := h
    rfl
  | number x =>
    replace h : IsNumber x e := h
    unfold IsNumber at h
    split at h
    · obtain ⟨line, rfl⟩ := h
      rfl
    · obtain ⟨a, line, -, rfl⟩ := h
      rfl
    · exact isMulti_of_isSigned h
  | string s =>
    obtain rfl : e = .const (.str (ofString s)) := h
    rfl

/-! ### Numbers -/

section Values

variable {d fuel : Nat} {fs : List FunctionScope} {u : Token} {ts : List Token}

theorem literal_number (n : Number) : literal? (.number n) = some n.toValue := by
  cases n <;> rfl

/-- The constant zero behind a slash. -/
theorem takes_quotient {limit : Nat} {a : Expr} (hd : d < maxDepth) (hu : operator? u = none)
    (hlimit : limit < 11) (ha : ∀ line, a.onLine line = a) :
    Takes d fs (operators (fuel + 4) limit a) (.symbol .slash :: .number (.int 0) :: u :: ts)
      (u :: ts) (fun e => ∃ line, e = .binary (.arithmetic .div) a (.const (.int 0)) line) := by
  have hop : operator? (.symbol .slash) = some (.binary (.arithmetic .div), 11, 11) := rfl
  refine takes_operators_next (u :: ts) hop hlimit ?_
  refine takes_operand_literal (literal_number (.int 0)) hd ?_
  refine (takes_operators_end (ends_of_none hu)).mono ?_
  rintro _ rfl line
  refine (takes_operators_end (ends_of_none hu)).mono ?_
  rintro _ rfl
  exact ⟨line, by rw [ha]; rfl⟩

/-- A number with its sign, and what comes behind it. -/
theorem takes_signed {rest : List Token} {good : Expr → Prop} (negative : Bool) {n : Number}
    (hd : d + 1 < maxDepth) (hends : Ends unaryStrength u)
    (hmore : ∀ e, IsSigned negative (.const n.toValue) e →
      Takes (d + 1) fs (operators (fuel + 3) 0 e) (u :: ts) rest good) :
    Takes d fs (operand (fuel + 4) 0) (signTokens negative ++ .number n :: u :: ts) rest good := by
  cases negative
  · exact takes_operand_literal (literal_number n) (by omega) (hmore _ rfl)
  · refine takes_operand_negate (u :: ts) (by omega) ?_
    refine takes_operand_literal (literal_number n) hd ?_
    refine (takes_operators_end hends).mono ?_
    rintro _ rfl line
    exact hmore _ ⟨line, rfl⟩

theorem onLine_of_isSigned {negative : Bool} {v : Value} {e : Expr}
    (h : IsSigned negative (.const v) e) (line : Nat) : e.onLine line = e := by
  cases negative
  · obtain rfl : e = .const v := h
    rfl
  · obtain ⟨l, rfl⟩ : ∃ l, e = .unary .negate (.const v) l := h
    rfl

theorem takes_number (x : Float) (hd : d + 1 < maxDepth) (hu : operator? u = none) :
    Takes d fs (operand (fuel + 6) 0) (numberTokens x ++ u :: ts) (u :: ts) (IsNumber x) := by
  unfold numberTokens IsNumber
  have hslash : Ends unaryStrength (.symbol .slash) := by
    intro op left right h
    obtain ⟨-, rfl, -⟩ : Operator.binary (.arithmetic .div) = op ∧ 11 = left ∧ 11 = right := by
      simpa [operator?] using h
    decide
  -- what is no number and what is infinite is written as a quotient
  rcases Binary64.ofFloat x with _ | s | ⟨s, m, q⟩
  · refine takes_signed (n := .int 0) false hd hslash ?_
    rintro _ rfl
    exact takes_quotient (by omega) hu (by decide) fun _ => rfl
  · dsimp only
    rw [List.append_assoc]
    refine takes_signed s hd hslash fun a ha => ?_
    refine (takes_quotient (by omega) hu (by decide)
      (onLine_of_isSigned ha)).mono ?_
    rintro e ⟨line, rfl⟩
    exact ⟨a, line, ha, rfl⟩
  · dsimp only
    rw [List.append_assoc]
    refine takes_signed s hd (ends_of_none hu) fun e he => ?_
    exact (takes_operators_end (ends_of_none hu)).mono fun e' he' => he' ▸ he

theorem takes_scalar (v : Scalar) (hd : d + 1 < maxDepth) (hu : operator? u = none) :
    Takes d fs (expr (fuel + 7)) (scalarTokens v ++ u :: ts) (u :: ts) (IsScalar v) := by
  rw [expr]
  cases v with
  | bool b =>
    have hliteral : literal? (.keyword (if b then .kwTrue else .kwFalse)) = some (.bool b) := by
      cases b <;> rfl
    exact takes_operand_literal hliteral (by omega) (takes_operators_end (ends_of_none hu))
  | number x => exact takes_number x hd hu
  | string s =>
    exact takes_operand_literal (v := .str (ofString s)) rfl (by omega)
      (takes_operators_end (ends_of_none hu))

/-! ### Items and contents -/

theorem scalarTokens_head (v : Scalar) : ∃ t us, scalarTokens v = t :: us ∧
    (∀ s, t ≠ .name s) ∧ t ≠ .symbol .openBracket ∧ t ≠ .symbol .closeBrace ∧
      endsBlock true t = false ∧ t ≠ .symbol .semicolon := by
  have hnumber : ∀ x, ∃ t us, numberTokens x = t :: us ∧
      (∀ s, t ≠ .name s) ∧ t ≠ .symbol .openBracket ∧ t ≠ .symbol .closeBrace ∧
        endsBlock true t = false ∧ t ≠ .symbol .semicolon := by
    intro x
    unfold numberTokens
    rcases Binary64.ofFloat x with _ | s | ⟨s, m, q⟩
    · exact ⟨_, _, rfl, by simp [endsBlock]⟩
    · cases s <;> exact ⟨_, _, rfl, by simp [endsBlock]⟩
    · cases s <;> exact ⟨_, _, rfl, by simp [endsBlock]⟩
  cases v with
  | bool b => cases b <;> exact ⟨_, _, rfl, by simp [endsBlock]⟩
  | number x => exact hnumber x
  | string s => exact ⟨_, _, rfl, by simp [endsBlock]⟩

/-- A key and what is assigned to it. -/
theorem takes_keyed {good : Expr → Prop} {t : Token} {vs : List Token} (name : String)
    (h : Takes d fs (expr (fuel + 7)) (t :: vs) (u :: ts) good) :
    Takes d fs (item (fuel + 8)) (keyTokens name ++ .symbol .assign :: t :: vs) (u :: ts)
      (fun i => ∃ e line, i = .keyed (.const (.str (ofString name))) e line ∧ good e) := by
  unfold keyTokens
  split
  · exact takes_item_name (ofString name) h
  · exact takes_item_bracket rfl h

theorem takes_item (x : Option String × Scalar) (hd : d + 1 < maxDepth)
    (hu : operator? u = none) :
    Takes d fs (item (fuel + 8)) (itemTokens x ++ u :: ts) (u :: ts) (IsItem x) := by
  obtain ⟨key, v⟩ := x
  have hscalar : Takes d fs (expr (fuel + 7)) (scalarTokens v ++ u :: ts) (u :: ts) (IsScalar v) :=
    takes_scalar v hd hu
  obtain ⟨t, us, hv, hname, hopen, -⟩ := scalarTokens_head v
  rw [hv] at hscalar
  cases key with
  | none =>
    rw [itemTokens, hv]
    exact takes_item_positional hname hopen hscalar
  | some name =>
    rw [itemTokens, List.append_assoc, List.cons_append, hv]
    exact takes_keyed name hscalar

theorem itemTokens_head (x : Option String × Scalar) :
    ∃ t us, itemTokens x = t :: us ∧ t ≠ .symbol .closeBrace := by
  obtain ⟨_ | name, v⟩ := x
  · obtain ⟨t, us, hv, -, -, hclose, -⟩ := scalarTokens_head v
    exact ⟨t, us, hv, hclose⟩
  · obtain ⟨t, us, hk, hclose, -⟩ := keyTokens_head name
    exact ⟨t, us ++ .symbol .assign :: scalarTokens v, by rw [itemTokens, hk]; rfl, hclose⟩

theorem length_le_flatMap {α : Type} (tokens : α → List Token) (xs : List α) :
    xs.length ≤ (xs.flatMap fun x => tokens x ++ [.symbol .comma]).length := by
  induction xs with
  | nil => exact le_rfl
  | cons x xs ih =>
    rw [List.flatMap_cons, List.length_append, List.length_append, List.length_cons,
      List.length_singleton]
    omega

/-- The braces of a table with items in them, each with a comma behind it. -/
theorem takes_braces {α : Type} {tokens : α → List Token} {good : α → Item → Prop} (need : Nat)
    (xs : List α) (hd : d < maxDepth) (hu : operator? u = none)
    (hitem : ∀ x ∈ xs, ∀ n u ts, need ≤ n →
      Takes (d + 1) fs (item n) (tokens x ++ .symbol .comma :: u :: ts) (.symbol .comma :: u :: ts)
        (good x))
    (hhead : ∀ x ∈ xs, ∃ t ts, tokens x = t :: ts ∧ t ≠ .symbol .closeBrace) (n : Nat)
    (hn : need + xs.length + 4 < n) :
    Takes d fs (expr n)
      (.symbol .openBrace :: ((xs.flatMap fun x => tokens x ++ [.symbol .comma]) ++
        .symbol .closeBrace :: u :: ts))
      (u :: ts) (fun e => ∃ is line, e = .table is line ∧ List.Forall₂ good xs is) := by
  obtain ⟨fuel, rfl⟩ : ∃ fuel, n = fuel + 4 := ⟨n - 4, by omega⟩
  have hitems : Takes (d + 1) fs (items fuel [])
      ((xs.flatMap fun x => tokens x ++ [.symbol .comma]) ++ .symbol .closeBrace :: u :: ts) _ _ :=
    takes_items xs hitem hhead fuel [] (by omega)
  rw [expr]
  refine takes_operand_constructor hd (ends_of_none hu) ?_
  -- what follows the brace is not empty, so the reader can look at it
  obtain ⟨w, ws, hws⟩ : ∃ w ws, ((xs.flatMap fun x => tokens x ++ [.symbol .comma]) ++
      .symbol .closeBrace :: u :: ts) = w :: ws := by
    cases xs.flatMap fun x => tokens x ++ [.symbol .comma] with
    | nil => exact ⟨_, _, rfl⟩
    | cons w ws => exact ⟨w, _, rfl⟩
  rw [hws] at hitems ⊢
  refine (takes_constructor hitems).mono ?_
  rintro e ⟨is, line, rfl, new, rfl, hnew⟩
  exact ⟨_, line, rfl, hnew⟩

theorem takes_content (c : Content) (hd : d + 2 < maxDepth) (hu : operator? u = none) (n : Nat)
    (hn : (contentTokens c).length + 12 ≤ n) :
    Takes d fs (expr n) (contentTokens c ++ u :: ts) (u :: ts) (IsContent c) := by
  cases c with
  | one v =>
    obtain ⟨fuel, rfl⟩ : ∃ fuel, n = fuel + 7 := ⟨n - 7, by omega⟩
    exact takes_scalar v (by omega) hu
  | list items =>
    have hlength := length_le_flatMap itemTokens items
    rw [contentTokens, itemsTokens, List.length_cons, List.length_append,
      List.length_singleton] at hn
    rw [contentTokens, itemsTokens, List.cons_append, List.append_assoc, List.singleton_append]
    refine takes_braces 8 items (by omega) hu (fun x _ n u ts hn => ?_)
      (fun x _ => itemTokens_head x) n (by omega)
    obtain ⟨k, rfl⟩ : ∃ k, n = k + 8 := ⟨n - 8, by omega⟩
    exact takes_item x (by omega) rfl

/-! ### Scripts -/

theorem contentTokens_head (c : Content) : ∃ t us, contentTokens c = t :: us := by
  cases c with
  | one v =>
    obtain ⟨t, us, hv, -⟩ := scalarTokens_head v
    exact ⟨t, us, hv⟩
  | list items => exact ⟨_, _, rfl⟩

/-- The tokens of a field without the comma. -/
def assignTokens (field : String × Content) : List Token :=
  keyTokens field.1 ++ .symbol .assign :: contentTokens field.2

theorem fieldTokens_eq (field : String × Content) :
    fieldTokens field = assignTokens field ++ [.symbol .comma] := by
  rw [fieldTokens, assignTokens, List.append_assoc, List.cons_append]

theorem takes_field (field : String × Content) (hd : d + 2 < maxDepth) (hu : operator? u = none)
    (n : Nat) (hn : (contentTokens field.2).length + 13 ≤ n) :
    Takes d fs (item n) (assignTokens field ++ u :: ts) (u :: ts) (IsField field) := by
  obtain ⟨fuel, rfl⟩ : ∃ fuel, n = fuel + 8 := ⟨n - 8, by omega⟩
  obtain ⟨t, us, ht⟩ := contentTokens_head field.2
  have hcontent : Takes d fs (expr (fuel + 7)) (contentTokens field.2 ++ u :: ts) (u :: ts) _ :=
    takes_content field.2 hd hu (fuel + 7) (by omega)
  rw [assignTokens, List.append_assoc, List.cons_append]
  rw [ht] at hcontent ⊢
  exact takes_keyed field.1 hcontent

theorem length_contentTokens_le {fields : List (String × Content)} {field : String × Content}
    (h : field ∈ fields) : (contentTokens field.2).length ≤ (fieldsTokens fields).length := by
  obtain ⟨before, after, rfl⟩ := List.append_of_mem h
  simp only [fieldsTokens, fieldTokens, List.flatMap_append, List.flatMap_cons,
    List.length_append, List.length_cons]
  omega

/-- The table of a script. -/
theorem takes_table (fields : List (String × Content)) (hd : d + 3 < maxDepth) (n : Nat)
    (hn : 2 * (fieldsTokens fields).length + 18 ≤ n) :
    Takes d fs (expr n)
      (.symbol .openBrace :: (fieldsTokens fields ++ [.symbol .closeBrace, .done])) [.done]
      (IsTable fields) := by
  have htokens : fieldsTokens fields =
      fields.flatMap fun field => assignTokens field ++ [.symbol .comma] :=
    List.flatMap_congr fun field _ => fieldTokens_eq field
  have hlength := length_le_flatMap assignTokens fields
  rw [← htokens] at hlength
  have hneed : (fieldsTokens fields).length + 13 + fields.length + 4 < n := by omega
  have hfield : ∀ field ∈ fields, ∀ n u ts, (fieldsTokens fields).length + 13 ≤ n →
      Takes (d + 1) fs (item n) (assignTokens field ++ .symbol .comma :: u :: ts)
        (.symbol .comma :: u :: ts) (IsField field) := by
    intro field hfield n u ts hn
    have := length_contentTokens_le hfield
    exact takes_field field (by omega) rfl n (by omega)
  have hhead : ∀ field ∈ fields, ∃ t ts, assignTokens field = t :: ts ∧
      t ≠ .symbol .closeBrace := by
    intro field _
    obtain ⟨t, us, hk, hclose, -⟩ := keyTokens_head field.1
    exact ⟨t, us ++ .symbol .assign :: contentTokens field.2, by rw [assignTokens, hk]; rfl, hclose⟩
  rw [htokens]
  exact takes_braces _ fields (by omega) rfl hfield hhead n hneed

end Values

/-- A text that returns an expression is read as the function that does so. -/
theorem ofTokens_return (chunk : String) {lexemes : List Lexeme} {t : Token} {ts : List Token}
    {good : Expr → Prop} (h : lexemes.map (·.token) = .keyword .kwReturn :: t :: ts)
    (hsound : Token.malformed ∉ .keyword .kwReturn :: t :: ts)
    (hend : endsBlock true t = false) (hsemicolon : t ≠ .symbol .semicolon)
    (hplain : ∀ e, good e → e.isMulti = false)
    (htakes : ∀ n, 16 * lexemes.length + 61 ≤ n →
      Takes 1 [scriptScope] (expr n) (t :: ts) [.done] good) :
    ∃ chunk' e, Function.ofTokens chunk lexemes = .ok (returning chunk' e) ∧ good e := by
  have hreturn := takes_statements_return (d := 0) (by decide)
    (takes_return hend hsemicolon hplain (htakes _ le_rfl))
  obtain ⟨chunk', e, r', hrun, he⟩ := script_return
    (r := { chunk := chunk, tokens := lexemes }) h rfl hsound hreturn
  refine ⟨chunk', e, ?_, he⟩
  rw [Function.ofTokens, hrun]
  rfl

/-- A script is read as the function that returns its table. -/
theorem ofTokens_script (chunk : String) {lexemes : List Lexeme} (fields : List (String × Content))
    (hsound : Token.malformed ∉ scriptTokens fields)
    (h : lexemes.map (·.token) = scriptTokens fields ++ [.done]) :
    ∃ chunk' e, Function.ofTokens chunk lexemes = .ok (returning chunk' e) ∧ IsTable fields e := by
  have hlength : lexemes.length = (fieldsTokens fields).length + 4 := by
    have := congrArg List.length h
    simpa [scriptTokens] using this
  have hshape : scriptTokens fields ++ [.done] = .keyword .kwReturn :: .symbol .openBrace ::
      (fieldsTokens fields ++ [.symbol .closeBrace, .done]) := by
    simp [scriptTokens]
  replace hsound : Token.malformed ∉ scriptTokens fields ++ [.done] := by simpa using hsound
  rw [hshape] at h hsound
  refine ofTokens_return chunk h hsound rfl (by simp) ?_ fun n hn => ?_
  · rintro e ⟨is, line, rfl, -⟩
    rfl
  · exact takes_table fields (by decide) n (by omega)

/-- A scalar is read as the function that returns it. -/
theorem ofTokens_scalar (chunk : String) {lexemes : List Lexeme} (v : Scalar)
    (hsound : Token.malformed ∉ .keyword .kwReturn :: scalarTokens v)
    (h : lexemes.map (·.token) = .keyword .kwReturn :: (scalarTokens v ++ [.done])) :
    ∃ chunk' e, Function.ofTokens chunk lexemes = .ok (returning chunk' e) ∧ IsScalar v e := by
  obtain ⟨t, us, hv, -, -, -, hend, hsemicolon⟩ := scalarTokens_head v
  have htakes : ∀ n, 7 ≤ n → Takes 1 [scriptScope] (expr n) (scalarTokens v ++ [.done]) [.done]
      (IsScalar v) := by
    intro n hn
    obtain ⟨fuel, rfl⟩ := Nat.exists_eq_add_of_le' hn
    exact takes_scalar v (by decide) rfl
  rw [hv] at h hsound htakes
  refine ofTokens_return chunk h (by simpa using hsound) hend hsemicolon
    (fun _ => isMulti_of_isScalar) fun n hn => htakes n (by omega)

/-- A script is no expression. -/
theorem ofTokens_returned (chunk : String) {lexemes : List Lexeme}
    (fields : List (String × Content)) (hsound : Token.malformed ∉ scriptTokens fields)
    (h : lexemes.map (·.token) = .keyword .kwReturn :: (scriptTokens fields ++ [.done])) :
    ∃ fault, Function.ofTokens chunk lexemes = .error fault := by
  obtain ⟨n, hn⟩ : ∃ n, 16 * lexemes.length + 64 = n + 8 := ⟨16 * lexemes.length + 56, by omega⟩
  obtain ⟨fault, hfault⟩ := script_refuses_return n
    (r := { chunk := chunk, tokens := lexemes }) (by rw [h]; rfl) rfl
    (by rw [h]; simpa using hsound)
  refine ⟨fault, ?_⟩
  rw [Function.ofTokens, hn, hfault]
  rfl

/-- The function of a level's script. -/
theorem function_script (shown : String) (level : Level) (dialect : Dialect) :
    ∃ chunk e,
      Sandbox.function .returned shown (ofString (level.script dialect)) = .ok (returning chunk e) ∧
        IsTable (contents level dialect) e := by
  have hread := reads_script level dialect
  have hsound := hread.sound
  have hprefixed : Token.Reads (ofString "return " ++ ofString (level.script dialect)).toList
      (.keyword .kwReturn :: scriptTokens (contents level dialect)) [] := by
    rw [toList_append, toList_ofString]
    exact (reads_return _).append hread
  obtain ⟨fault, hfault⟩ := ofTokens_returned shown (contents level dialect) hsound
    hprefixed.list
  obtain ⟨chunk, e, hcode, he⟩ := ofTokens_script shown (contents level dialect) hsound
    hread.list
  refine ⟨chunk, e, ?_, he⟩
  simp only [Sandbox.function, Function.ofText, hfault, hcode]

/-- The function of a scalar's text. -/
theorem function_scalar (shown : String) (v : Scalar) :
    ∃ chunk e, Sandbox.function .returned shown (ofString (scalar v)) = .ok (returning chunk e) ∧
      IsScalar v e := by
  have hread : Token.Reads (ofString "return " ++ ofString (scalar v)).toList
      (.keyword .kwReturn :: scalarTokens v) [] := by
    have hscalar := (stands_scalar v).reads [] (by simp [Token.IsStop])
    rw [List.append_nil] at hscalar
    rw [toList_append, toList_ofString, toList_ofString]
    exact (reads_return _).append hscalar
  obtain ⟨chunk, e, hcode, he⟩ := ofTokens_scalar shown v hread.sound hread.list
  refine ⟨chunk, e, ?_, he⟩
  simp only [Sandbox.function, Function.ofText, hcode]

end LuaConfig.Script
