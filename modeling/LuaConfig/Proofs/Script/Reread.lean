/-
Levels that are read back from their scripts.

What a level becomes when it is written as a script and read again is given field by field
(`reread`).  Those overrides that have one name come back as one, and a zero has lost its sign.  The
main statement is `parse_script`: the script of every level is read back as that level, its overrides
in the order of the walk that the interpreter chooses.
-/
import LuaConfig.Proofs.Record.Field
import LuaConfig.Proofs.Script.Evaluation

namespace LuaConfig

open Lua Lua.Octets Decimal

namespace Script

/-! ### Values that are read back -/

def rereadScalar : Scalar → Scalar
  | .bool b => .bool b
  | .number x => .number (normal x)
  | .string s => .string s

def rereadOverride (o : Override) : Override := ⟨o.name, rereadScalar o.value⟩

/-- Of the overrides of one name the last one stays, in the place of the first. -/
def rereadOverrides (overrides : List Override) : List Override :=
  (upsertAll Override.name (sortedOverrides overrides) []).map rereadOverride

theorem nodup_rereadOverrides (os : List Override) :
    ((rereadOverrides os).map (·.name)).Nodup := by
  rw [rereadOverrides, List.map_map]
  show ((upsertAll Override.name _ []).map Override.name).Nodup
  exact nodup_upsertAll _ List.nodup_nil

def rereadWhole (n : Int64) : Int64 := (numberValue (ofInt n.toInt)).toValue.whole?.getD 0

/-- An integer comes back as the one that its text shows, cut to 64 bits. -/
theorem rereadWhole_eq (n : Int64) : rereadWhole n = Value.clip (shown n.toInt) := by
  rw [rereadWhole, whole_numberValue, Option.getD_some]

theorem ofInt_rereadWhole (n : Int64) : ofInt (rereadWhole n).toInt = ofInt n.toInt := by
  rw [rereadWhole_eq, ofInt_clip_shown]

theorem rereadWhole_of_exact {n : Int64} (h : n.toInt.natAbs ≤ 2 ^ 53) : rereadWhole n = n := by
  rw [rereadWhole_eq, shown_of_exact h]
  exact (Value.eq_clip_of_range rfl).symm

/-- The value of a field after it has been written and read. -/
def reread : (kind : Kind) → kind.Value → kind.Value
  | .text, s => s
  | .flag, b => b
  | .number, x => normal x
  | .whole, n => rereadWhole n
  | .scalar, v => rereadScalar v
  | .texts, items => items
  | .numbers, items => items.map normal
  | .overrides, items => rereadOverrides items
  | .choice, v => v
  | .limit, v => v
  | .items, v => v
  | .options, v => v

section Values

variable {σ : Store}

theorem scalar_scalarValue (v : Scalar) : (scalarValue v).scalar? = some (rereadScalar v) := by
  cases v with
  | bool b => rfl
  | number x => exact scalar_numberValue x
  | string s => exact congrArg (some ∘ Scalar.string) (text_ofString s)

theorem text_ofString_value (s : String) : (Value.ofString s).text? = some s :=
  congrArg some (text_ofString s)

theorem entries_of_holds {items : List (Option String × Scalar)} {w : Value}
    (h : Holds σ.tables (.list items) w) :
    ∃ walk, Reading.entries σ w =
      (Table.construct walk (entriesOf items) (valuesOf items)).pairs := by
  obtain ⟨ref, walk, rfl, ht⟩ := h
  refine ⟨walk, ?_⟩
  show (σ.table ref).pairs = _
  rw [Store.table, Array.getD_eq_getD_getElem?, ht, Option.getD_some]

theorem items_of_scalars {α : Type} (f : α → Scalar) (xs : List α) :
    entriesOf (xs.map fun x => (none, f x)) = [] ∧
      valuesOf (xs.map fun x => (none, f x)) = xs.map fun x => scalarValue (f x) := by
  induction xs with
  | nil => exact ⟨rfl, rfl⟩
  | cons x xs ih => exact ⟨ih.1, congrArg (scalarValue (f x) :: ·) ih.2⟩

/-- A list of scalars is read back, whatever is made of each. -/
theorem filterMap_values_of_holds {α β : Type} {f : α → Scalar} {xs : List α} {w : Value}
    (h : Holds σ.tables (.list (xs.map fun x => (none, f x))) w) {read : Value → Option β}
    {g : α → β} (hread : ∀ x, read (scalarValue (f x)) = some (g x)) :
    (Reading.values σ w).filterMap read = xs.map g := by
  obtain ⟨hentries, hvalues⟩ := items_of_scalars f xs
  obtain ⟨walk, hwalk⟩ := entries_of_holds h
  have hpairs : Reading.values σ w = xs.map fun x => scalarValue (f x) := by
    rw [Reading.values, hwalk, hentries, hvalues]
    refine Table.pairs_construct_values walk fun v hv => ?_
    obtain ⟨x, -, rfl⟩ := List.mem_map.mp hv
    exact scalarValue_ne_nil (f x)
  rw [hpairs, List.filterMap_map, ← List.filterMap_eq_map]
  exact List.filterMap_congr fun x _ => hread x

/-- An override as an entry of a table. -/
def overrideEntry (o : Override) : Value × Value := (.ofString o.name, scalarValue o.value)

theorem items_of_overrides (os : List Override) :
    entriesOf (os.map overrideItem) = os.map overrideEntry ∧
      valuesOf (os.map overrideItem) = [] := by
  induction os with
  | nil => exact ⟨rfl, rfl⟩
  | cons o os ih => exact ⟨congrArg (overrideEntry o :: ·) ih.1, ih.2⟩

theorem overrideEntry_fst_iff (o o' : Override) :
    (overrideEntry o).1 = (overrideEntry o').1 ↔ o.name = o'.name :=
  ⟨fun h => ofString_inj (Value.str.inj h), fun h => congrArg Value.ofString h⟩

theorem overrides_of_holds {os : List Override} {w : Value}
    (h : Holds σ.tables (.list (os.map overrideItem)) w) :
    (Reading.overrides σ w).Perm ((upsertAll Override.name os []).map rereadOverride) := by
  obtain ⟨hentries, hvalues⟩ := items_of_overrides os
  have hfield : ∀ e ∈ os.map overrideEntry, Table.IsField e := by
    intro e he
    obtain ⟨o, -, rfl⟩ := List.mem_map.mp he
    exact ⟨⟨_, rfl⟩, scalarValue_ne_nil o.value⟩
  -- the entries are those of the overrides, in the order of the table's walk
  obtain ⟨walk, hwalk⟩ := entries_of_holds h
  rw [hentries, hvalues] at hwalk
  have hpairs := Table.pairs_construct walk hfield
  rw [← List.map_nil (f := overrideEntry), ← map_upsertAll overrideEntry_fst_iff, ← hwalk] at hpairs
  refine (hpairs.filterMap _).trans (List.Perm.of_eq ?_)
  rw [List.filterMap_map, ← List.filterMap_eq_map]
  refine List.filterMap_congr fun o _ => ?_
  show (do
    return Override.mk (← (Value.ofString o.name).text?) (← (scalarValue o.value).scalar?)) = _
  rw [text_ofString_value, scalar_scalarValue]
  rfl

/-- A value is the given one, overrides in any order. -/
def Reordered : (kind : Kind) → kind.Value → kind.Value → Prop
  | .overrides, items, items' => items'.Perm items
  | _, v, v' => v' = v

theorem reordered_refl {kind : Kind} (h : kind ≠ .overrides) (v : kind.Value) :
    Reordered kind v v := by
  cases kind <;> first
    | rfl
    | exact absurd rfl h

theorem eq_of_reordered {kind : Kind} {v v' : kind.Value} (h : kind ≠ .overrides)
    (hv : Reordered kind v v') : v' = v := by
  cases kind <;> first
    | exact hv
    | exact absurd rfl h

/-- The value of a field is read back. -/
theorem value_of_holds {kind : Kind} {v : kind.Value} {c : Content} {w : Value}
    (hc : content? kind v = some c) (h : Holds σ.tables c w) :
    Reordered kind (reread kind v) (Reading.value σ kind w) := by
  -- each kind reads what its content was written from; four kinds have no content in a level
  cases kind with
  | text =>
    obtain rfl := Option.some.inj hc
    obtain rfl : w = .ofString v := h
    show (Value.ofString v).text?.getD "" = v
    rw [text_ofString_value, Option.getD_some]
  | flag =>
    obtain rfl := Option.some.inj hc
    obtain rfl : w = .bool v := h
    rfl
  | number =>
    obtain rfl := Option.some.inj hc
    obtain rfl : w = (numberValue v).toValue := h
    show (numberValue v).toValue.double?.getD 0 = normal v
    rw [double_numberValue, Option.getD_some]
  | whole =>
    obtain rfl := Option.some.inj hc
    obtain rfl : w = (numberValue (ofInt v.toInt)).toValue := h
    rfl
  | scalar =>
    obtain rfl := Option.some.inj hc
    obtain rfl : w = scalarValue v := h
    show (scalarValue v).scalar?.getD (.bool false) = rereadScalar v
    rw [scalar_scalarValue, Option.getD_some]
  | texts =>
    obtain rfl := Option.some.inj hc
    exact (filterMap_values_of_holds h text_ofString_value).trans v.map_id
  | numbers =>
    obtain rfl := Option.some.inj hc
    exact filterMap_values_of_holds h double_numberValue
  | overrides =>
    obtain rfl := Option.some.inj hc
    exact overrides_of_holds h
  | choice => cases hc
  | limit => cases hc
  | items => cases hc
  | options => cases hc

end Values

/-! ### Fields of the table -/

section Fields

variable {σ : Store} {ref : Nat} {walk : Walk} {fields : List (String × Content)}
  {entries : List (Value × Value)}

theorem keys_of_holds (h : List.Forall₂ (HoldsField σ.tables) fields entries) :
    entries.map Prod.fst = fields.map fun field => Value.ofString field.1 := by
  induction h with
  | nil => rfl
  | cons hfield _ ih => rw [List.map_cons, List.map_cons, hfield.1, ih]

theorem mem_of_holds (h : List.Forall₂ (HoldsField σ.tables) fields entries)
    {field : String × Content} (hfield : field ∈ fields) :
    ∃ e ∈ entries, HoldsField σ.tables field e := by
  induction h with
  | nil => cases hfield
  | cons hhead _ ih =>
    rcases List.mem_cons.mp hfield with rfl | hfield
    · exact ⟨_, List.mem_cons_self, hhead⟩
    · obtain ⟨e, he, hholds⟩ := ih hfield
      exact ⟨e, List.mem_cons_of_mem _ he, hholds⟩

theorem isField_of_holds (h : List.Forall₂ (HoldsField σ.tables) fields entries) :
    ∀ e ∈ entries, Table.IsField e := by
  induction h with
  | nil => simp
  | cons hhead _ ih => exact List.forall_mem_cons.mpr ⟨hhead.isField, ih⟩

/-- A field of the table is what was written. -/
theorem field_of_holds (h : List.Forall₂ (HoldsField σ.tables) fields entries)
    (htable : σ.tables[ref]? = some (.construct walk entries []))
    (hnodup : (fields.map Prod.fst).Nodup) {field : String × Content} (hfield : field ∈ fields) :
    Holds σ.tables field.2 (Reading.field σ (.table ref) field.1) := by
  obtain ⟨e, he, hkey, hholds⟩ := mem_of_holds h hfield
  have hkeys : (entries.map Prod.fst).Nodup := by
    rw [keys_of_holds h, ← Function.comp_def Value.ofString, ← List.map_map]
    exact hnodup.map fun a b hab => ofString_inj (Value.str.inj hab)
  have hfind := (find_reverse hkeys e.1).trans (find_of_mem hkeys he)
  have hvalue : Reading.field σ (.table ref) field.1 = e.2 := by
    show (σ.table ref).getEntry (.ofString field.1) = e.2
    rw [Store.table, Array.getD_eq_getD_getElem?, htable, Option.getD_some,
      Table.getEntry_construct walk (isField_of_holds h), ← hkey, hfind]
    rfl
  rw [hvalue]
  exact hholds

/-- All other fields are missing. -/
theorem field_of_not_mem (h : List.Forall₂ (HoldsField σ.tables) fields entries)
    (htable : σ.tables[ref]? = some (.construct walk entries [])) {name : String}
    (hname : name ∉ fields.map Prod.fst) : Reading.field σ (.table ref) name = .nil := by
  show (σ.table ref).getEntry (.ofString name) = .nil
  rw [Store.table, Array.getD_eq_getD_getElem?, htable, Option.getD_some,
    Table.getEntry_construct walk (isField_of_holds h)]
  have hnone : entries.reverse.find? (Prod.fst · = .ofString name) = none := by
    rw [List.find?_eq_none]
    intro e he heq
    have hmem : e.1 ∈ entries.map Prod.fst := List.mem_map_of_mem (List.mem_reverse.mp he)
    rw [keys_of_holds h, of_decide_eq_true heq] at hmem
    obtain ⟨field, hfield, hkey⟩ := List.mem_map.mp hmem
    exact hname (ofString_inj (Value.str.inj hkey) ▸ List.mem_map_of_mem hfield)
  rw [hnone]
  rfl

end Fields

theorem mem_contents {level : Level} {dialect : Dialect} {f : Field Level}
    (h : f ∈ dialect.fields) {c : Content} (hc : content? f.kind (f.get level) = some c) :
    (f.key, c) ∈ contents level dialect :=
  List.mem_filterMap.mpr ⟨f, h, by rw [hc]; rfl⟩

theorem keys_contents_sublist (level : Level) (dialect : Dialect) :
    ((contents level dialect).map Prod.fst).Sublist (dialect.fields.map (·.key)) := by
  unfold contents
  induction dialect.fields with
  | nil => exact List.Sublist.slnil
  | cons f fs ih =>
    rw [List.filterMap_cons]
    cases content? f.kind (f.get level) with
    | none => exact ih.cons _
    | some c => exact ih.cons_cons _

theorem nodup_keys (dialect : Dialect) : (dialect.fields.map (·.key)).Nodup := by
  cases dialect <;> decide

theorem nodup_contents (level : Level) (dialect : Dialect) :
    ((contents level dialect).map Prod.fst).Nodup :=
  List.Nodup.sublist (keys_contents_sublist level dialect) (nodup_keys dialect)

end Script

/-! ### Levels -/

namespace Level

open Script

/-- The level with the given values in some of its fields. -/
def assemble (fs : List (Field Level)) (value : (f : Field Level) → f.kind.Value) : Level :=
  fs.foldl (fun r f => f.set (value f) r) {}

/-- The level that the script of a level is read back as. -/
def reread (dialect : Dialect) (level : Level) : Level :=
  assemble dialect.fields fun f => Script.reread f.kind (f.get level)

theorem get_assemble (value : (f : Field Level) → f.kind.Value) :
    ∀ f ∈ fields, f.get (assemble fields value) = value f :=
  fun _ hf => Field.get_foldl complete_fields.apart value {} hf

theorem mem_fields_of_dialect {dialect : Dialect} {f : Field Level} (h : f ∈ dialect.fields) :
    f ∈ fields := by
  have hall : ∀ f ∈ Dialect.cave.fields, f ∈ fields := by
    simp [fields, Dialect.fields, Dialect.sharedFields]
  cases dialect with
  | master => exact hall f (List.mem_cons_of_mem _ h)
  | cave => exact hall f h

theorem apart_dialect (dialect : Dialect) : dialect.fields.Pairwise Field.Apart :=
  (List.pairwise_map.mp (nodup_keys dialect)).imp_of_mem fun hf hg =>
    complete_fields.apart_of_key (mem_fields_of_dialect hf) (mem_fields_of_dialect hg)

theorem get_assemble_dialect (dialect : Dialect) (value : (f : Field Level) → f.kind.Value) :
    ∀ f ∈ dialect.fields, f.get (assemble dialect.fields value) = value f :=
  fun _ hf => Field.get_foldl (apart_dialect dialect) value {} hf

theorem get_reread {dialect : Dialect} {f : Field Level} (h : f ∈ dialect.fields) (level : Level) :
    f.get (level.reread dialect) = Script.reread f.kind (f.get level) :=
  get_assemble_dialect dialect _ f h

/-- The only field that a dialect may leave out. -/
theorem mem_or_master {f : Field Level} (h : f ∈ fields) (dialect : Dialect) :
    f ∈ dialect.fields ∨ (dialect = .master ∧ f = backgroundNodeRangeField) := by
  have hcave : ∀ f ∈ fields, f ∈ Dialect.cave.fields := by
    simp [fields, Dialect.fields, Dialect.sharedFields]
  cases dialect with
  | master =>
    rcases List.mem_cons.mp (hcave f h) with rfl | hmem
    · exact Or.inr ⟨rfl, rfl⟩
    · exact Or.inl hmem
  | cave => exact Or.inl (hcave f h)

theorem kind_of_mem {f : Field Level} (h : f ∈ fields) :
    f.kind ∉ [Kind.choice, .limit, .items, .options] := by
  have hkinds : ∀ kind ∈ fields.map (·.kind), kind ∉ [Kind.choice, .limit, .items, .options] := by
    decide
  exact hkinds f.kind (List.mem_map_of_mem h)

theorem content_of_kind {kind : Kind} (h : kind ∉ [Kind.choice, .limit, .items, .options])
    (v : kind.Value) : ∃ c, content? kind v = some c := by
  cases kind <;> first
    | exact ⟨_, rfl⟩
    | exact absurd (by decide) h

/-- The level with other overrides. -/
def withOverrides (level : Level) (overrides : List Override) : Level :=
  { level with overrides := overrides }

/-- Only one field holds overrides. -/
theorem kind_or_overrides {f : Field Level} (h : f ∈ fields) :
    f = overridesField ∨ (f.kind ≠ .overrides ∧
      ∀ (level : Level) (os : List Override), f.get (level.withOverrides os) = f.get level) := by
  have hne : ∀ {f : Field Level}, f.kind ≠ .overrides →
      (∀ (level : Level) (os : List Override), f.get (level.withOverrides os) = f.get level) →
      f = overridesField ∨ (f.kind ≠ .overrides ∧
        ∀ (level : Level) (os : List Override), f.get (level.withOverrides os) = f.get level) :=
    fun hkind hget => Or.inr ⟨hkind, hget⟩
  revert f
  simp only [fields, List.forall_mem_cons]
  refine ⟨?_, ?_, ?_, ?_, ?_, ?_, ?_, ?_, ?_, ?_, ?_, ?_, ?_, ?_, ?_, ?_, ?_, Or.inl trivial, ?_,
    ?_, ?_, ?_, ?_, by simp⟩ <;> exact hne (by decide) fun _ _ => rfl

theorem overridesField_mem (dialect : Dialect) : overridesField ∈ dialect.fields := by
  cases dialect <;> simp [Dialect.fields, Dialect.sharedFields]

/-- A level that is read back, its overrides in any order, has the fields that come back. -/
theorem reordered_get {level : Level} {dialect : Dialect} {os : List Override}
    (h : os.Perm (level.reread dialect).overrides) {f : Field Level} (hf : f ∈ dialect.fields) :
    Reordered f.kind (Script.reread f.kind (f.get level))
      (f.get ((level.reread dialect).withOverrides os)) := by
  rcases kind_or_overrides (mem_fields_of_dialect hf) with rfl | ⟨hkind, hget⟩
  · have hback : (level.reread dialect).overrides = rereadOverrides level.overrides :=
      get_reread hf level
    rw [hback] at h
    exact h
  · rw [hget, get_reread hf]
    exact reordered_refl hkind _

/-- The script of a level is read back, each field as it comes back. -/
theorem parse_script (options : SandboxOptions) (level : Level) (dialect : Dialect)
    (choices : Choices) :
    ∃ os, os.Perm (level.reread dialect).overrides ∧
      (Level.parse options.unlimited (level.script dialect) choices).result =
        .ok ((level.reread dialect).withOverrides os) := by
  obtain ⟨σ, ref, walk, entries, hentries, htable, hcollector, hrun⟩ :=
    run_script options level dialect choices
  let value (f : Field Level) : f.kind.Value :=
    Reading.value σ f.kind (Reading.field σ (.table ref) f.key)
  have hresult : (Level.parse options.unlimited (level.script dialect) choices).result =
      .ok (assemble fields value) := by
    have hmarked : (Sandbox.run options.unlimited .returned RecordKind.level.chunk
        (level.script dialect) choices).store.collector.marked = [] := by
      rw [hrun]
      exact congrArg Collector.marked hcollector
    rw [Level.parse, RecordKind.root, Sandbox.ready_eq_run hmarked, hrun]
    rfl
  have hback : ∀ f ∈ fields, Reordered f.kind (f.get (level.reread dialect)) (value f) := by
    intro f hf
    rcases mem_or_master hf dialect with hmem | ⟨rfl, rfl⟩
    · obtain ⟨c, hc⟩ := content_of_kind (kind_of_mem hf) (f.get level)
      rw [get_reread hmem]
      have hholds : Holds σ.tables c (Reading.field σ (.table ref) f.key) :=
        field_of_holds hentries htable (nodup_contents level dialect) (mem_contents hmem hc)
      exact value_of_holds hc hholds
    · have hmissing : Reading.field σ (.table ref) backgroundNodeRangeField.key = .nil := by
        refine field_of_not_mem hentries htable fun hmem => ?_
        have := (keys_contents_sublist level .master).subset hmem
        revert this
        decide
      show Reading.value σ _ (Reading.field σ (.table ref) backgroundNodeRangeField.key) = _
      rw [hmissing]
      rfl
  have hoverrides : overridesField ∈ fields := mem_fields_of_dialect (overridesField_mem dialect)
  refine ⟨value overridesField, hback overridesField hoverrides, hresult.trans ?_⟩
  -- all other fields are those of the level that comes back
  refine congrArg _ (complete_fields.ext fun f hf => ?_)
  rw [get_assemble _ f hf]
  rcases kind_or_overrides hf with rfl | ⟨hkind, hget⟩
  · rfl
  · exact (eq_of_reordered hkind (hback f hf)).trans (hget _ _).symm

end Level

end LuaConfig
