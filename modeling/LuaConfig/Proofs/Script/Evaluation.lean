/-
What the code of a level's script does.

The code of a scalar hands on the value of the scalar, and the code of a table makes the table of
its items (`Holds`), whatever the interpreter chooses for it.  None of it calls a function, so that
a script is run in a single step of the machine (`run_script`), and none of it is the collector's.
-/
import LuaConfig.Proofs.Lua.Store
import LuaConfig.Proofs.Sandbox.Run
import LuaConfig.Proofs.Script.Code
import LuaConfig.Script.Record

namespace LuaConfig.Script

open Lua Lua.Octets Decimal

/-! ### Scalars -/

/-- The value that the code of a scalar has. -/
def scalarValue : Scalar → Value
  | .bool b => .bool b
  | .number x => (numberValue x).toValue
  | .string s => .ofString s

/-- An expression hands on a value at once, and leaves the given tables and the collector as it is. -/
def Yields (act : Activation) (σ : Store) (e : Expr) (v : Value) (tables : Array Table) : Prop :=
  ∃ σ', σ'.tables = tables ∧ σ'.collector = σ.collector ∧ ∀ k, e.eval act k σ = k v σ'

section Scalars

variable {act : Activation} {σ : Store}

theorem yields_const (v : Value) : Yields act σ (.const v) v σ.tables :=
  ⟨σ, rfl, rfl, fun k => by rw [Expr.eval]⟩

theorem toValue_ne_nil (n : Number) : n.toValue ≠ .nil := by
  cases n <;> exact fun h => by cases h

theorem ofValue_toValue (n : Number) : Number.ofValue? n.toValue = some n := by
  cases n <;> rfl

theorem arithmetic_unm (n m : Number) : Number.arithmetic .unm n m = .ok (withSign true n) := by
  cases n <;> rfl

theorem yields_signed {negative : Bool} {n : Number} {e : Expr}
    (h : IsSigned negative (.const n.toValue) e) :
    Yields act σ e (withSign negative n).toValue σ.tables := by
  cases negative
  · obtain rfl : e = .const n.toValue := h
    exact yields_const _
  · obtain ⟨line, rfl⟩ : ∃ line, e = .unary .negate (.const n.toValue) line := h
    refine ⟨σ.charge 1, rfl, rfl, fun k => ?_⟩
    rw [Expr.eval, Expr.eval, Operation.unary, Operation.arithmetic, ofValue_toValue]
    simp only [arithmetic_unm]

/-- The code of a quotient of integers. -/
theorem yields_quotient {a : Expr} {n : Int64} (line : Nat)
    (h : Yields act σ a (.int n) σ.tables) (ha : ∀ i name, a ≠ .var i name) :
    Yields act σ (.binary (.arithmetic .div) a (.const (.int 0)) line)
      (.float (Value.toFloat n / Value.toFloat 0)) σ.tables := by
  obtain ⟨σ', htables, hcollector, heval⟩ := h
  refine ⟨σ'.charge 1, htables, hcollector, fun k => ?_⟩
  rw [Expr.eval, heval, Expr.eval]
  · rfl
  · exact ha

/-- The number of a quotient that stands for an infinity. -/
theorem quotient_infinite (negative : Bool) :
    Value.toFloat (if negative then 0 - 1 else 1) / Value.toFloat 0 =
      ofMagnitudeBits negative infinityBits := by
  cases negative <;> decide

theorem quotient_nan : Binary64.ofFloat (Value.toFloat 0 / Value.toFloat 0) = .nan := by
  decide

theorem not_var_of_isSigned {negative : Bool} {v : Value} {e : Expr}
    (h : IsSigned negative (.const v) e) (i : Nat) (name : String) : e ≠ .var i name := by
  cases negative
  · obtain rfl : e = .const v := h
    exact fun h => by cases h
  · obtain ⟨line, rfl⟩ : ∃ line, e = .unary .negate (.const v) line := h
    exact fun h => by cases h

theorem yields_number {x : Float} {e : Expr} (h : IsNumber x e) :
    Yields act σ e (numberValue x).toValue σ.tables := by
  unfold IsNumber at h
  unfold numberValue
  -- the cases of the text, as it was written
  rcases hx : Binary64.ofFloat x with _ | s | ⟨s, m, q⟩
  · rw [hx] at h
    obtain ⟨line, rfl⟩ : ∃ line,
      e = .binary (.arithmetic .div) (.const (.int 0)) (.const (.int 0)) line := h
    rw [eq_of_nan hx quotient_nan]
    exact yields_quotient line (yields_const _) fun _ _ h => by cases h
  · rw [hx] at h
    obtain ⟨a, line, ha, rfl⟩ := h
    have hone : Yields act σ a (withSign s (.int 1)).toValue σ.tables := yields_signed ha
    have hvalue : (withSign s (.int 1)).toValue = .int (if s then 0 - 1 else 1) := by
      cases s <;> rfl
    rw [hvalue] at hone
    rw [eq_infinite hx, ← quotient_infinite]
    exact yields_quotient line hone (not_var_of_isSigned ha)
  · rw [hx] at h
    exact yields_signed h

variable (act σ) in
theorem yields_scalar {v : Scalar} {e : Expr} (h : IsScalar v e) :
    Yields act σ e (scalarValue v) σ.tables := by
  cases v with
  | bool b =>
    obtain rfl : e = .const (.bool b) := h
    exact yields_const _
  | number x => exact yields_number h
  | string s =>
    obtain rfl : e = .const (.str (ofString s)) := h
    exact yields_const _

end Scalars

/-! ### Tables -/

section Tables

variable (act : Activation) {σ : Store}

/-- The entries of the items that have a key. -/
def entriesOf : List (Option String × Scalar) → List (Value × Value)
  | [] => []
  | (some name, v) :: items => (.ofString name, scalarValue v) :: entriesOf items
  | (none, _) :: items => entriesOf items

/-- The values of the items that have none. -/
def valuesOf : List (Option String × Scalar) → List Value
  | [] => []
  | (some _, _) :: items => valuesOf items
  | (none, v) :: items => scalarValue v :: valuesOf items

theorem modify_id (tables : Array Table) (ref : Nat) : (tables.modify ref fun t => t) = tables := by
  refine Array.ext_getElem? fun i => ?_
  rw [Array.getElem?_modify]
  split
  · exact Option.map_id'
  · rfl

theorem modify_modify (tables : Array Table) (ref : Nat) (f g : Table → Table) :
    (tables.modify ref f).modify ref g = tables.modify ref fun t => g (f t) := by
  refine Array.ext_getElem? fun i => ?_
  simp only [Array.getElem?_modify]
  split
  · rw [Option.map_map]
    rfl
  · rfl

theorem tables_fill (making : Making) :
    (making.fill σ).tables = σ.tables.modify making.ref (·.fill making.values.reverse) := by
  have hempty : making.values.reverse.isEmpty = making.values.isEmpty := by simp
  unfold Making.fill Table.fill
  rw [hempty]
  split
  · exact (modify_id _ _).symm
  · rfl

theorem collector_fill (making : Making) : (making.fill σ).collector = σ.collector := by
  unfold Making.fill
  split <;> rfl

theorem evalMulti_of_isMulti {e : Expr} (h : e.isMulti = false) (k : Continuation (List Value)) :
    e.evalMulti act k σ = e.eval act (fun v σ => k [v] σ) σ := by
  rw [Expr.evalMulti.eq_def]
  cases e <;> first
    | rfl
    | cases h

/-- The items of a table of scalars are set, and fill its positions. -/
theorem evalItems_scalars {items : List (Option String × Scalar)} {is : List Item}
    (h : List.Forall₂ IsItem items is) (σ : Store) (ref : Nat) (values : List Value) :
    ∃ σ', σ'.tables = σ.tables.modify ref
        (fun t => (t.setAll (entriesOf items)).fill (values.reverse ++ valuesOf items)) ∧
      σ'.collector = σ.collector ∧ ∀ k, Expr.evalItems act is ⟨ref, values⟩ k σ = k () σ' := by
  -- `values` are the items by position so far, last first; they are stored with the last item
  induction h generalizing σ values with
  | nil =>
    refine ⟨Making.fill ⟨ref, values⟩ σ, ?_, collector_fill _, fun k => by rw [Expr.evalItems]⟩
    rw [tables_fill, valuesOf, List.append_nil]
    rfl
  | @cons item i items is hitem his ih =>
    obtain ⟨_ | name, v⟩ := item
    · obtain ⟨e, rfl, he⟩ := hitem
      cases his with
      | nil =>
        obtain ⟨σ₁, htables₁, hcollector₁, heval⟩ := yields_scalar act σ he
        refine ⟨Making.fill ⟨ref, scalarValue v :: values⟩ σ₁, ?_,
          (collector_fill _).trans hcollector₁, fun k => ?_⟩
        · rw [tables_fill, htables₁, List.reverse_cons]
          rfl
        · rw [Expr.evalItems, evalMulti_of_isMulti act (isMulti_of_isScalar he), heval]
          rfl
      | cons hitem his =>
        obtain ⟨σ₁, htables₁, hcollector₁, heval⟩ := yields_scalar act (σ.charge 1) he
        obtain ⟨σ', htables, hcollector, heval'⟩ := ih σ₁ (scalarValue v :: values)
        refine ⟨σ', ?_, hcollector.trans hcollector₁, fun k => ?_⟩
        · rw [htables, htables₁, List.reverse_cons, List.append_assoc]
          rfl
        · rw [Expr.evalItems]
          · exact (heval _).trans (heval' k)
          · simp
    · obtain ⟨e, line, rfl, he⟩ := hitem
      obtain ⟨σ₁, htables₁, hcollector₁, heval⟩ := yields_scalar act σ he
      obtain ⟨σ', htables, hcollector, heval'⟩ :=
        ih ((σ₁.charge 1).rawSet ref (.ofString name) (scalarValue v)) values
      refine ⟨σ', ?_, hcollector.trans hcollector₁, fun k => ?_⟩
      · have htables₁' : (σ₁.charge 1).tables = σ.tables := htables₁
        rw [htables, Store.tables_rawSet, modify_modify, htables₁']
        rfl
      · rw [Expr.evalItems, Expr.eval, heval]
        exact heval' k

/-! ### Contents -/

/-- A value is what a content stands for; a list stands in a table of its own. -/
def Holds (tables : Array Table) : Content → Value → Prop
  | .one v, w => w = scalarValue v
  | .list items, w => ∃ ref walk, w = .table ref ∧
      tables[ref]? = some (.construct walk (entriesOf items) (valuesOf items))

/-- All tables but one are still there. -/
def Apart (ref : Nat) (tables tables' : Array Table) : Prop :=
  ∀ r t, r ≠ ref → tables[r]? = some t → tables'[r]? = some t

theorem Apart.trans {ref : Nat} {tables tables' tables'' : Array Table}
    (h : Apart ref tables tables') (h' : Apart ref tables' tables'') :
    Apart ref tables tables'' := fun r t hne ht => h' r t hne (h r t hne ht)

theorem apart_modify (ref : Nat) (tables : Array Table) (f : Table → Table) :
    Apart ref tables (tables.modify ref f) := by
  intro r t hne ht
  rw [Array.getElem?_modify, if_neg (Ne.symm hne)]
  exact ht

theorem Holds.mono {tables tables' : Array Table} {c : Content} {w : Value} {ref : Nat}
    (h : Holds tables c w) (hne : w ≠ .table ref) (hapart : Apart ref tables tables') :
    Holds tables' c w := by
  cases c with
  | one v => exact h
  | list items =>
    obtain ⟨r, walk, rfl, ht⟩ := h
    exact ⟨r, walk, rfl, hapart r _ (fun heq => hne (heq ▸ rfl)) ht⟩

theorem scalarValue_ne_nil (v : Scalar) : scalarValue v ≠ .nil := by
  cases v with
  | number x => exact toValue_ne_nil _
  | _ => exact fun h => by cases h

theorem scalarValue_ne_table (v : Scalar) (ref : Nat) : scalarValue v ≠ .table ref := by
  cases v with
  | number x =>
    show (numberValue x).toValue ≠ _
    cases numberValue x <;> exact fun h => by cases h
  | _ => exact fun h => by cases h

theorem Holds.ne_nil {tables : Array Table} {c : Content} {w : Value} (h : Holds tables c w) :
    w ≠ .nil := by
  cases c with
  | one v =>
    obtain rfl : w = scalarValue v := h
    exact scalarValue_ne_nil v
  | list items =>
    obtain ⟨r, walk, rfl, -⟩ := h
    exact fun h => by cases h

/-- A table constructor fills a table that stands behind all others. -/
theorem eval_table_constructor (is : List Item) (line : Nat) (k : Continuation Value) (σ : Store) :
    (Expr.table is line).eval act k σ =
      Expr.evalItems act is ⟨σ.tables.size, []⟩ (fun _ σ' => k (.table σ.tables.size) σ')
        ((σ.newTable {}).2.charge 1) := by
  rw [Expr.eval]
  show Expr.evalItems act is ⟨(σ.newTable {}).2.tables.size - 1, []⟩ _ _ = _
  rw [Store.last_newTable]
  rfl

/-- The code of a content hands on what the content stands for.  A table that it makes is new. -/
theorem eval_content {c : Content} {e : Expr} (h : IsContent c e) (σ : Store) :
    ∃ σ' w, Holds σ'.tables c w ∧ (∀ ref < σ.tables.size, w ≠ .table ref) ∧
      (∀ ref < σ.tables.size, σ'.tables[ref]? = σ.tables[ref]?) ∧
      σ'.collector = σ.collector ∧ ∀ k, e.eval act k σ = k w σ' := by
  cases c with
  | one v =>
    obtain ⟨σ', htables, hcollector, heval⟩ := yields_scalar act σ h
    refine ⟨σ', _, rfl, fun ref _ => scalarValue_ne_table v ref, fun ref _ => ?_, hcollector, heval⟩
    rw [htables]
  | list items =>
    obtain ⟨is, line, rfl, his⟩ := h
    obtain ⟨σ', htables, hcollector, heval⟩ :=
      evalItems_scalars act his ((σ.newTable {}).2.charge 1) σ.tables.size []
    have hnew : ((σ.newTable {}).2.charge 1).tables = σ.tables.push { walk := σ.nextWalk } := rfl
    rw [hnew] at htables
    -- the items are stored in the new table, all others stay
    refine ⟨σ', .table σ.tables.size, ⟨_, σ.nextWalk, rfl, ?_⟩, ?_, fun ref href => ?_, hcollector,
      fun k => ?_⟩
    · rw [htables, Array.getElem?_modify, if_pos rfl, Array.getElem?_push_size]
      rfl
    · intro ref href heq
      have := Value.table.inj heq
      omega
    · rw [htables, Array.getElem?_modify, if_neg (by omega), Array.getElem?_push_lt href,
        Array.getElem?_eq_getElem href]
    · rw [eval_table_constructor]
      exact heval _

/-- An entry is that of a field. -/
def HoldsField (tables : Array Table) (field : String × Content) (e : Value × Value) : Prop :=
  e.1 = .ofString field.1 ∧ Holds tables field.2 e.2

theorem HoldsField.isField {tables : Array Table} {field : String × Content} {e : Value × Value}
    (h : HoldsField tables field e) : Table.IsField e :=
  ⟨⟨_, h.1⟩, h.2.ne_nil⟩

/-- The fields of a level's table are set one after the other. -/
theorem evalItems_fields {fields : List (String × Content)} {is : List Item}
    (h : List.Forall₂ IsField fields is) (σ : Store) {ref : Nat} {t : Table}
    (href : σ.tables[ref]? = some t) :
    ∃ σ' entries, List.Forall₂ (HoldsField σ'.tables) fields entries ∧
      σ'.tables[ref]? = some (t.setAll entries) ∧ Apart ref σ.tables σ'.tables ∧
      σ'.collector = σ.collector ∧ ∀ k, Expr.evalItems act is ⟨ref, []⟩ k σ = k () σ' := by
  -- fields whose values have been stored stay, since later ones make tables of their own
  induction h generalizing σ t with
  | nil =>
    refine ⟨σ, [], .nil, href, fun r t _ ht => ht, rfl, fun k => ?_⟩
    rw [Expr.evalItems]
    rfl
  | @cons field i fields is hfield his ih =>
    obtain ⟨e, line, rfl, he⟩ := hfield
    obtain ⟨σ₁, w, hw, hnew, hframe, hcollector₁, heval⟩ := eval_content act he σ
    have hlt : ref < σ.tables.size := (Array.getElem?_eq_some_iff.mp href).1
    have hapart₁ : Apart ref σ.tables σ₁.tables := by
      intro r t _ ht
      rw [hframe r (Array.getElem?_eq_some_iff.mp ht).1, ht]
    let σ₂ := (σ₁.charge 1).rawSet ref (.ofString field.1) w
    have htables₂ : σ₂.tables = σ₁.tables.modify ref (·.set (.ofString field.1) w) := rfl
    have href₂ : σ₂.tables[ref]? = some (t.set (.ofString field.1) w) := by
      rw [htables₂, Array.getElem?_modify, if_pos rfl, hframe ref hlt, href]
      rfl
    have hapart₂ : Apart ref σ₁.tables σ₂.tables := apart_modify ref σ₁.tables _
    obtain ⟨σ', entries, hentries, htable, hapart, hcollector, heval'⟩ := ih σ₂ href₂
    refine ⟨σ', (.ofString field.1, w) :: entries, .cons ⟨rfl, ?_⟩ hentries, htable,
      (hapart₁.trans hapart₂).trans hapart, hcollector.trans hcollector₁, fun k => ?_⟩
    · exact hw.mono (hnew ref hlt) (hapart₂.trans hapart)
    · rw [Expr.evalItems, Expr.eval, heval]
      exact heval' k

/-- The code of a level's table hands on a table with the fields. -/
theorem eval_table {fields : List (String × Content)} {e : Expr} (h : IsTable fields e)
    (σ : Store) :
    ∃ σ' ref walk entries, List.Forall₂ (HoldsField σ'.tables) fields entries ∧
      σ'.tables[ref]? = some (.construct walk entries []) ∧ σ'.collector = σ.collector ∧
      ∀ k, e.evalMulti act k σ = k [.table ref] σ' := by
  obtain ⟨is, line, rfl, his⟩ := h
  have hnew : ((σ.newTable {}).2.charge 1).tables[σ.tables.size]? =
      some { walk := σ.nextWalk } := Array.getElem?_push_size
  obtain ⟨σ', entries, hentries, htable, -, hcollector, heval⟩ := evalItems_fields act his _ hnew
  refine ⟨σ', σ.tables.size, σ.nextWalk, entries, hentries, htable, hcollector, fun k => ?_⟩
  rw [evalMulti_of_isMulti act rfl, eval_table_constructor]
  exact heval _

end Tables

/-! ### Runs -/

/-- A function returns what its expression hands on. -/
theorem run_returning {e : Expr} {chunk : String} {upvalues : Array Nat} {args : List Value}
    {v : Value} {σ σ' : Store}
    (h : ∀ k, e.evalMulti ⟨chunk, upvalues, args.drop 0⟩ k
      (Store.charge { σ with slots := initialSlots 0 0 args } 1) = k [v] σ') :
    (Parse.returning chunk e).run upvalues args σ = .done [v] σ' := by
  show Block.exec _ (.mk false [.return [e]]) _ _ = _
  rw [Block.exec, Stmt.execList, Stmt.exec, Expr.evalList]
  exact h _

/-- A function that returns at once is run in one step. -/
theorem run_done {limits : Limits} (hinstructions : limits.instructions = none)
    (hmemory : limits.memory = none) (fuel : Nat) (results : List Value) (σ : Store) :
    Machine.run limits (fuel + 1) .initial (.done results σ) = some ⟨.ok results, σ, false⟩ := by
  simp only [Machine.run, Machine.step, Machine.checkInstructions, Machine.checkMemory,
    hinstructions, hmemory, Machine.answer, Machine.initial, Machine.resume]

/-- A text returns what its function does. -/
theorem run_of_function (options : SandboxOptions) (choices : Choices) {source : String}
    {code : Function} {v : Value} {σ : Store}
    (hcode : Sandbox.function .returned
      (ChunkName.shown (ofString ("=" ++ RecordKind.level.chunk))) (ofString source) = .ok code)
    (h : code.run #[(Sandbox.prepare options.unlimited choices).cells.size] []
      (Sandbox.startStore options.unlimited choices code) = .done [v] σ) :
    Sandbox.run options.unlimited .returned RecordKind.level.chunk source choices = ⟨.ok v, σ⟩ := by
  have hrefuse : Sandbox.refuseName? (ofString ("=" ++ RecordKind.level.chunk)) = none := by
    decide +kernel
  have hread : Sandbox.read .returned RecordKind.level.chunk source = .ok code := by
    simp only [Sandbox.read, hrefuse, hcode]
  have hstart := Sandbox.start?_of_read choices
    (show Sandbox.isCramped options.unlimited = false from rfl) hread
  have hrun : Machine.run (Sandbox.limits options.unlimited) 1
      (Sandbox.startOf options.unlimited choices code).1
      (Sandbox.startOf options.unlimited choices code).2 = some ⟨.ok [v], σ, false⟩ := by
    rw [Sandbox.startOf_eq, h]
    exact run_done rfl rfl 0 [v] σ
  exact (Sandbox.run_eq_of_run (by decide) hstart hrun).trans (Sandbox.finish_within _ rfl)

/-- A level's script returns a table with its contents, and leaves nothing to the collector. -/
theorem run_script (options : SandboxOptions) (level : Level) (dialect : Dialect)
    (choices : Choices) :
    ∃ σ ref walk entries, List.Forall₂ (HoldsField σ.tables) (contents level dialect) entries ∧
      σ.tables[ref]? = some (.construct walk entries []) ∧ σ.collector = {} ∧
      Sandbox.run options.unlimited .returned RecordKind.level.chunk (level.script dialect)
        choices = ⟨.ok (.table ref), σ⟩ := by
  obtain ⟨chunk, e, hcode, he⟩ := function_script _ level dialect
  obtain ⟨σ, ref, walk, entries, hentries, htable, hcollector, heval⟩ := eval_table _ he _
  exact ⟨σ, ref, walk, entries, hentries, htable, hcollector,
    run_of_function options choices hcode (run_returning heval)⟩

/-- The text of a scalar returns the value of the scalar. -/
theorem run_scalar (options : SandboxOptions) (v : Scalar) (choices : Choices) :
    ∃ σ, Sandbox.run options.unlimited .returned RecordKind.level.chunk (scalar v) choices =
      ⟨.ok (scalarValue v), σ⟩ := by
  obtain ⟨chunk, e, hcode, he⟩ := function_scalar _ v
  obtain ⟨σ, -, -, heval⟩ := yields_scalar _ _ he
  refine ⟨σ, run_of_function options choices hcode (run_returning fun k => ?_)⟩
  rw [evalMulti_of_isMulti _ (isMulti_of_isScalar he), heval]

end LuaConfig.Script
