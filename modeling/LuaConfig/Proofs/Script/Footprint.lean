/-
The tables that a record is read from.

Each reader looks into the tables of a list that is computed from the store, metatables being left
aside (`leafTables`, `optionTables`, `valueTables`).  Two stores whose tables on the list hold the
same have the same value there, whatever else they hold: one lemma for each reader, up to
`value_eq` and `record_eq`.
-/
import LuaConfig.Proofs.Lua.Store
import Mathlib.Data.List.Basic

namespace LuaConfig

open Lua

/-- Tables that hold the same in two stores. -/
def Lua.Store.Agree (σ σ' : Store) (refs : List Nat) : Prop :=
  ∀ ref ∈ refs, (σ.table ref).SameContents (σ'.table ref)

namespace Reading

/-! ### What is looked into -/

/-- The table that a value is, if it is one. -/
def tableOf : Value → List Nat
  | .table ref => [ref]
  | _ => []

/-- The tables that the items of a list are read from. -/
def itemTables (σ : Store) (v : Value) : List Nat := tableOf v ++ (tables σ v).flatMap tableOf

/-- The tables that a field which is not a list of options is read from. -/
def leafTables (σ : Store) : Kind → Value → List Nat
  | .texts, v => tableOf v
  | .numbers, v => tableOf v
  | .overrides, v => tableOf v
  | .items, v => itemTables σ v
  | _, _ => []

/-- The tables that the fields of a record are read from, apart from its own. -/
def nestedTables {ρ : Type} (visit : Kind → Value → List Nat) (σ : Store) (fields : List (Field ρ))
    (v : Value) : List Nat :=
  fields.flatMap fun f => visit f.kind (field σ v f.key)

/-- The tables that an option is read from. -/
def optionTables (σ : Store) (v : Value) : List Nat :=
  tableOf v ++ nestedTables (leafTables σ) σ ModOption.fields v

/-- The tables that a list of options is read from. -/
def optionsTables (σ : Store) (v : Value) : List Nat :=
  tableOf v ++ (tables σ v).flatMap (optionTables σ)

/-- The tables that a field is read from. -/
def valueTables (σ : Store) : Kind → Value → List Nat
  | .options, v => optionsTables σ v
  | kind, v => leafTables σ kind v

/-! ### What is read -/

variable {σ σ' : Store} {v w : Value}

theorem agree_append {refs refs' : List Nat} :
    σ.Agree σ' (refs ++ refs') ↔ σ.Agree σ' refs ∧ σ.Agree σ' refs' := List.forall_mem_append

theorem agree_of_mem {α : Type} {visit : α → List Nat} {xs : List α} {x : α}
    (h : σ.Agree σ' (xs.flatMap visit)) (hx : x ∈ xs) : σ.Agree σ' (visit x) :=
  fun ref href => h ref (List.mem_flatMap_of_mem hx href)

theorem entries_eq (h : σ.Agree σ' (tableOf v)) : entries σ' v = entries σ v := by
  cases v with
  | table ref => exact (h ref List.mem_cons_self).pairs_eq
  | _ => rfl

theorem field_eq (h : σ.Agree σ' (tableOf v)) (key : String) : field σ' v key = field σ v key := by
  cases v with
  | table ref => exact (h ref List.mem_cons_self).getEntry_eq _
  | _ => rfl

theorem values_eq (h : σ.Agree σ' (tableOf v)) : values σ' v = values σ v := by
  rw [values, values, entries_eq h]

theorem tables_eq (h : σ.Agree σ' (tableOf v)) : tables σ' v = tables σ v := by
  rw [tables, tables, values_eq h]

theorem skipped_eq (h : σ.Agree σ' (tableOf v)) : skipped σ' v = skipped σ v := by
  rw [skipped, skipped, entries_eq h]

theorem item_eq (h : σ.Agree σ' (tableOf v)) : item σ' v = item σ v := by
  rw [item, item, field_eq h, field_eq h]

theorem items_eq (h : σ.Agree σ' (itemTables σ v)) : items σ' v = items σ v := by
  obtain ⟨hself, hitems⟩ := agree_append.mp h
  rw [items, items, tables_eq hself]
  exact List.map_congr_left fun w hw => item_eq (agree_of_mem hitems hw)

theorem leaf_eq {kind : Kind} (h : σ.Agree σ' (leafTables σ kind v)) :
    leaf σ' kind v = leaf σ kind v := by
  cases kind with
  | texts => exact congrArg (List.filterMap Value.text?) (values_eq h)
  | numbers => exact congrArg (List.filterMap Value.double?) (values_eq h)
  | overrides => exact congrArg overridesAmong (entries_eq h)
  | items => exact items_eq h
  | _ => rfl

section Record

variable {ρ : Type} {visit : Kind → Value → List Nat} {fields : List (Field ρ)}

theorem agree_field (h : σ.Agree σ' (nestedTables visit σ fields v)) {f : Field ρ}
    (hf : f ∈ fields) : σ.Agree σ' (visit f.kind (field σ v f.key)) :=
  fun ref href => h ref (List.mem_flatMap.mpr ⟨f, hf, href⟩)

/-- A record is the same if its own table holds the same, and the values of its fields are read
alike. -/
theorem record_eq {read read' : (kind : Kind) → Value → kind.Value}
    (hread : ∀ {kind : Kind} {w}, σ.Agree σ' (visit kind w) → read' kind w = read kind w)
    (hself : σ.Agree σ' (tableOf v)) (hnested : σ.Agree σ' (nestedTables visit σ fields v))
    (blank : ρ) : record read' σ' v fields blank = record read σ v fields blank := by
  refine List.foldl_ext _ _ blank fun r f hf => ?_
  rw [field_eq hself, hread (agree_field hnested hf)]

end Record

theorem option_eq (h : σ.Agree σ' (optionTables σ v)) : option σ' v = option σ v := by
  obtain ⟨hself, hnested⟩ := agree_append.mp h
  exact record_eq leaf_eq hself hnested {}

theorem options_eq (h : σ.Agree σ' (optionsTables σ v)) : options σ' v = options σ v := by
  obtain ⟨hself, hoptions⟩ := agree_append.mp h
  rw [options, options, tables_eq hself]
  exact List.map_congr_left fun w hw => option_eq (agree_of_mem hoptions hw)

theorem value_of_ne {kind : Kind} (h : kind ≠ .options) : value σ kind v = leaf σ kind v := by
  unfold value
  split
  · exact absurd rfl h
  · rfl

theorem valueTables_of_ne {kind : Kind} (h : kind ≠ .options) :
    valueTables σ kind v = leafTables σ kind v := by
  unfold valueTables
  split
  · exact absurd rfl h
  · rfl

theorem value_eq {kind : Kind} (h : σ.Agree σ' (valueTables σ kind v)) :
    value σ' kind v = value σ kind v := by
  by_cases hkind : kind = .options
  · subst hkind
    exact options_eq h
  · rw [valueTables_of_ne hkind] at h
    rw [value_of_ne hkind, value_of_ne hkind, leaf_eq h]

/-! ### One table is changed -/

/-- To set a value in a table is not seen by a reader that does not look into it. -/
theorem agree_rawSet {ref : Nat} {refs : List Nat} (h : ref ∉ refs) (key value : Value) :
    σ.Agree (σ.rawSet ref key value) refs := by
  intro ref' href
  have hne : ref ≠ ref' := fun heq => h (heq ▸ href)
  rw [σ.table_rawSet_of_ne key value hne]
  exact .refl _

end Reading

end LuaConfig
