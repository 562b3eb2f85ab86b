/-
Metatables and records.

Records and translations are read from what tables hold, metatables being left aside.  Two stores
whose tables hold the same, as far as they can be reached from a root, have the same records and
translations in that root, whatever metatables, functions and variables they have beside.

A record is read when the run has ended, and no function is called then, unless the collector has
finalizers to call.

Main statements:
* `mapping_ignores_metatables` — records and translations in stores whose tables hold the same;
* `mapping_ignores_metatables_finalizer` — a finalizer that changes what is read.
-/
import LuaConfig.Proofs.Sandbox.Run
import LuaConfig.Proofs.Script.Footprint
import LuaConfig.Script.Record

namespace LuaConfig

open Lua

namespace Lua

/-- The tables that a value leads to, without a look at metatables. -/
inductive Store.Reaches (σ : Store) (root : Value) : Nat → Prop
  | root {ref : Nat} : root = .table ref → Reaches σ root ref
  | inner {ref ref' : Nat} : Reaches σ root ref →
      .table ref' ∈ (σ.table ref).pairs.map Prod.snd → Reaches σ root ref'

/-- All tables that a value leads to hold the same in two stores. -/
def Store.SameBelow (σ σ' : Store) (root : Value) : Prop :=
  ∀ ref, σ.Reaches root ref → (σ.table ref).SameContents (σ'.table ref)

namespace Table.SameContents

variable {t t' : Table} (h : t.SameContents t')
include h

theorem entryFrom_eq (fuel i : Nat) : t'.entryFrom? fuel i = t.entryFrom? fuel i := by
  have hentry (rank : Nat) : t'.entryAt? rank = t.entryAt? rank := by
    rw [h]
    rfl
  induction fuel generalizing i with
  | zero => rfl
  | succ fuel ih => simp only [entryFrom?, hentry, ih]

theorem positionFrom_eq (fuel i : Nat) : t'.positionFrom? fuel i = t.positionFrom? fuel i := by
  have hpositions : t'.positions = t.positions := by rw [h]
  have hentries : t'.entries = t.entries := by rw [h]
  induction fuel generalizing i with
  | zero => simp only [positionFrom?, hentries, h.entryFrom_eq]
  | succ fuel ih => simp only [positionFrom?, hpositions, hentries, h.entryFrom_eq, ih]

theorem isEmpty_eq : t'.isEmpty = t.isEmpty := by
  have hpositions : t'.positions = t.positions := by rw [h]
  rw [isEmpty, isEmpty, hpositions, h.positionFrom_eq]

theorem translation_eq (locale : Octets) : t'.translation locale = t.translation locale := by
  rw [translation, translation, h.get_eq, h.get_eq]

end Table.SameContents

theorem Table.mem_pairs_of_getEntry {t : Table} {key : Value} (h : t.getEntry key ≠ .nil) :
    t.getEntry key ∈ t.pairs.map Prod.snd := by
  rw [getEntry] at h ⊢
  split at h
  · next place =>
    split at h
    · next k v hentry =>
      have hmem : (k, v) ∈ t.entries.toList :=
        Array.mem_toList_iff.mpr (Array.mem_of_getElem? hentry)
      exact List.mem_map.mpr ⟨(k, v), List.mem_filter.mpr
        ⟨List.mem_append_right _ (mem_walked.mpr hmem), by simpa using h⟩, rfl⟩
    · exact absurd rfl h
  · exact absurd rfl h

namespace Store

variable {σ : Store} {root : Value}

theorem not_reaches_nil (ref : Nat) : ¬ σ.Reaches .nil ref := by
  intro hreaches
  induction hreaches with
  | root h => cases h
  | inner _ _ ih => exact ih

end Store

end Lua

/-! ### Tables that are read can be reached -/

namespace Reading

variable {σ σ' : Store} {v w : Value} {ref : Nat}

theorem reaches_of_tableOf (h : ref ∈ tableOf v) : σ.Reaches v ref := by
  cases v with
  | table parent => exact .root (congrArg Value.table (List.mem_singleton.mp h).symm)
  | _ => cases h

theorem reaches_of_values (hw : w ∈ values σ v) (h : σ.Reaches w ref) : σ.Reaches v ref := by
  induction h with
  | root heq =>
    subst heq
    cases v with
    | table parent => exact .inner (.root rfl) hw
    | _ => cases hw
  | inner _ hmem ih => exact .inner ih hmem

theorem reaches_of_tables (hw : w ∈ tables σ v) (h : σ.Reaches w ref) : σ.Reaches v ref :=
  reaches_of_values (List.mem_of_mem_filter hw) h

theorem field_mem {key : String} (h : field σ v key ≠ .nil) : field σ v key ∈ values σ v := by
  cases v with
  | table ref => exact Table.mem_pairs_of_getEntry h
  | _ => exact absurd rfl h

theorem reaches_of_field {key : String} (h : σ.Reaches (field σ v key) ref) : σ.Reaches v ref := by
  -- an absent field is none of the values, and leads to nothing
  by_cases hfield : field σ v key = .nil
  · rw [hfield] at h
    exact absurd h (Store.not_reaches_nil ref)
  · exact reaches_of_values (field_mem hfield) h

theorem reaches_of_itemTables (h : ref ∈ itemTables σ v) : σ.Reaches v ref := by
  rcases List.mem_append.mp h with h | h
  · exact reaches_of_tableOf h
  · obtain ⟨w, hw, href⟩ := List.mem_flatMap.mp h
    exact reaches_of_tables hw (reaches_of_tableOf href)

theorem reaches_of_leafTables {kind : Kind} (h : ref ∈ leafTables σ kind v) : σ.Reaches v ref := by
  cases kind with
  | texts | numbers | overrides => exact reaches_of_tableOf h
  | items => exact reaches_of_itemTables h
  | _ => cases h

theorem reaches_of_nestedTables {ρ : Type} {visit : Kind → Value → List Nat}
    (hvisit : ∀ {kind w}, ref ∈ visit kind w → σ.Reaches w ref) {fields : List (Field ρ)}
    (h : ref ∈ nestedTables visit σ fields v) : σ.Reaches v ref := by
  obtain ⟨f, -, href⟩ := List.mem_flatMap.mp h
  exact reaches_of_field (hvisit href)

theorem reaches_of_optionTables (h : ref ∈ optionTables σ v) : σ.Reaches v ref := by
  rcases List.mem_append.mp h with h | h
  · exact reaches_of_tableOf h
  · exact reaches_of_nestedTables reaches_of_leafTables h

theorem reaches_of_optionsTables (h : ref ∈ optionsTables σ v) : σ.Reaches v ref := by
  rcases List.mem_append.mp h with h | h
  · exact reaches_of_tableOf h
  · obtain ⟨w, hw, href⟩ := List.mem_flatMap.mp h
    exact reaches_of_tables hw (reaches_of_optionTables href)

theorem reaches_of_valueTables {kind : Kind} (h : ref ∈ valueTables σ kind v) :
    σ.Reaches v ref := by
  by_cases hkind : kind = .options
  · subst hkind
    exact reaches_of_optionsTables h
  · rw [valueTables_of_ne hkind] at h
    exact reaches_of_leafTables h

theorem agree_tableOf (h : σ.SameBelow σ' v) : σ.Agree σ' (tableOf v) :=
  fun ref href => h ref (reaches_of_tableOf href)

theorem agree_nestedTables (h : σ.SameBelow σ' v) {ρ : Type} (fields : List (Field ρ)) :
    σ.Agree σ' (nestedTables (valueTables σ) σ fields v) :=
  fun ref href => h ref (reaches_of_nestedTables reaches_of_valueTables href)

end Reading

variable {σ σ' : Store} {v : Value}

theorem Level.ofValue_eq (h : σ.SameBelow σ' v) : Level.ofValue σ' v = Level.ofValue σ v := by
  cases v with
  | table ref =>
    exact congrArg _ (Reading.record_eq Reading.value_eq (Reading.agree_tableOf h)
      (Reading.agree_nestedTables h fields) {})
  | _ => rfl

theorem ModInfo.optionsOf_eq (h : σ.SameBelow σ' v) :
    ModInfo.optionsOf σ' v = ModInfo.optionsOf σ v :=
  Reading.field_eq (Reading.agree_tableOf h) _

theorem ModInfo.ofValue_eq (h : σ.SameBelow σ' v) : ModInfo.ofValue σ' v = ModInfo.ofValue σ v := by
  cases v with
  | table ref =>
    rw [ofValue, ofValue, optionsOf_eq h, Reading.record_eq Reading.value_eq
      (Reading.agree_tableOf h) (Reading.agree_nestedTables h fields)]
  | _ => rfl

theorem Lua.Store.translate_eq (h : σ.SameBelow σ' v) (locale : Octets) :
    σ'.translate locale v = σ.translate locale v := by
  cases v with
  | table ref =>
    have hsame := h ref (.root rfl)
    rw [translate, translate, hsame.isEmpty_eq, hsame.translation_eq]
  | _ => rfl

/-- What is read of a run that has ended is the same, and so is what it printed. -/
theorem RecordKind.ofOutcome_eq (kind : RecordKind) (h : σ.SameBelow σ' v)
    (hprints : σ'.prints = σ.prints) :
    kind.ofOutcome ⟨.ok v, σ'⟩ = kind.ofOutcome ⟨.ok v, σ⟩ := by
  have hlines : σ'.prints.reverse = σ.prints.reverse := congrArg List.reverse hprints
  cases kind with
  | modInfo =>
    have hskipped : Reading.skipped σ' (ModInfo.optionsOf σ' v) =
        Reading.skipped σ (ModInfo.optionsOf σ v) := by
      rw [ModInfo.optionsOf_eq h]
      exact Reading.skipped_eq fun ref href =>
        h ref (Reading.reaches_of_field (Reading.reaches_of_tableOf href))
    simp only [RecordKind.ofOutcome, ModInfo.ofOutcome, Parsed.ofOutcome, Sandbox.Outcome.prints,
      ModInfo.ofValue_eq h, hskipped, hlines]
  | level =>
    simp only [RecordKind.ofOutcome, Level.ofOutcome, Parsed.ofOutcome, Sandbox.Outcome.prints,
      Level.ofValue_eq h, hlines]

/-- The records in a root, the entries that are passed over, and the translations of the root depend
on what the tables below it hold, in the order of their walks, and on nothing else in the store: not
on metatables, and not on any function.  Choosing a translation calls no function and leaves the
store as it is; and where no table waits for its finalizer, so does the collector before a record is
read.  Weak references count as references here: the collector takes none of them away. -/
theorem mapping_ignores_metatables (h : σ.SameBelow σ' v) :
    ModInfo.ofValue σ' v = ModInfo.ofValue σ v ∧
    Level.ofValue σ' v = Level.ofValue σ v ∧
    (∀ kind : RecordKind, σ'.prints = σ.prints →
      kind.ofOutcome ⟨.ok v, σ'⟩ = kind.ofOutcome ⟨.ok v, σ⟩) ∧
    (∀ locale rest, ∃ w,
      (Builtin.chooseTranslation locale).run (v :: rest) σ = .done [w] σ ∧
      (Builtin.chooseTranslation locale).run (v :: rest) σ' = .done [w] σ') ∧
    (σ.collector.marked = [] → σ'.collector.marked = [] → ∀ limits fuel,
      Sandbox.Outcome.settle limits fuel ⟨.ok v, σ⟩ = some ⟨.ok v, σ⟩ ∧
      Sandbox.Outcome.settle limits fuel ⟨.ok v, σ'⟩ = some ⟨.ok v, σ'⟩) := by
  refine ⟨ModInfo.ofValue_eq h, Level.ofValue_eq h, fun kind => kind.ofOutcome_eq h,
    fun locale rest => ⟨σ.translate locale v, rfl, ?_⟩, fun hmarked hmarked' limits fuel =>
      ⟨Sandbox.settle_of_unmarked hmarked, Sandbox.settle_of_unmarked hmarked'⟩⟩
  rw [← Lua.Store.translate_eq h]
  rfl

/-- A table with an empty list of options. -/
def withOptions : Table := Sandbox.tableOf [(ModInfo.optionsKey, .table 1)]

/-- A store with a mod that has no options. -/
def plainStore : Store := { Sandbox.emptyStore {} with tables := #[withOptions, {}] }

/-- The same store, with a metatable that raises an error wherever it is asked. -/
def raisingStore : Store :=
  { Sandbox.emptyStore {} with
    tables := #[{ withOptions with metatable := some 2 }, { metatable := some 2 },
      Sandbox.tableOf [("__index", .builtin (.base .error)), ("__pairs", .builtin (.base .error)),
        ("__len", .builtin (.base .error)), ("__metatable", .bool false)]] }

theorem mapping_ignores_metatables_raising :
    plainStore.SameBelow raisingStore (.table 0) ∧
      raisingStore.metamethod (.table 0) Event.index = .builtin (.base .error) ∧
      ModInfo.ofValue raisingStore (.table 0) = ModInfo.ofValue plainStore (.table 0) ∧
      ModInfo.ofValue plainStore (.table 0) = .ok {} := by
  have hfirst : (plainStore.table 0).pairs.map Prod.snd = [.table 1] := by decide +kernel
  have hsecond : (plainStore.table 1).pairs.map Prod.snd = [] := by decide +kernel
  have hreaches : ∀ ref, plainStore.Reaches (.table 0) ref → ref = 0 ∨ ref = 1 := by
    intro ref hreaches
    induction hreaches with
    | root h => exact Or.inl (Value.table.inj h).symm
    | inner _ hmem ih =>
      rcases ih with rfl | rfl
      · rw [hfirst, List.mem_singleton] at hmem
        exact Or.inr (Value.table.inj hmem)
      · rw [hsecond] at hmem
        cases hmem
  have hsame : plainStore.SameBelow raisingStore (.table 0) := by
    intro ref hbelow
    rcases hreaches ref hbelow with rfl | rfl <;> rfl
  have hindex : raisingStore.metamethod (.table 0) Event.index = .builtin (.base .error) := by
    decide +kernel
  have hvalue : ModInfo.ofValue plainStore (.table 0) = .ok {} := by
    decide +kernel
  exact ⟨hsame, hindex, (mapping_ignores_metatables hsame).1, hvalue⟩

/-- A script that leaves a finalizer to the collector, which is told to go on at the end. -/
def replacing : String :=
  "x = setmetatable(\x7b\x7d, \x7b__gc = function() name = 'after' end\x7d) name = 'before' " ++
    "configuration_options = \x7b\x7d collectgarbage() x = nil collectgarbage('restart')"

/-- Is a mod of the given name read of an outcome? -/
def hasName (name : String) (o : Sandbox.Outcome) : Bool :=
  match (ModInfo.ofOutcome o).result with
  | .ok info => info.name = name
  | .error _ => false

/-- The run ends with one name, its instructions not being spent; a finalizer is called then, and
another name is read. -/
theorem mapping_ignores_metatables_finalizer :
    ∃ before after, Sandbox.runFor 60 {} .globals "modinfo.lua" replacing {} = some before ∧
      hasName "before" before = true ∧
      Sandbox.readyFor 60 {} .globals "modinfo.lua" replacing {} = some after ∧
      hasName "after" after = true := by
  have hruns : (Sandbox.runFor 60 {} .globals "modinfo.lua" replacing {}).any (fun before =>
      hasName "before" before && (before.settle (Sandbox.limits {}) 60).any (hasName "after")) =
        true := by
    decide +kernel
  obtain ⟨before, hrun, hnames⟩ := (Option.any_eq_true _ _).mp hruns
  obtain ⟨hbefore, hsettles⟩ := Bool.and_eq_true_iff.mp hnames
  obtain ⟨after, hsettle, hafter⟩ := (Option.any_eq_true _ _).mp hsettles
  exact ⟨before, after, hrun, hbefore, (Sandbox.readyFor_of_runFor hrun).trans hsettle, hafter⟩

end LuaConfig
