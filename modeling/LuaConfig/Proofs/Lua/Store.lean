/-
Stores that hold the same.

What is read outside scripts depends on what tables hold, and not on their metatables
(`Table.SameContents`).  To set a value in a table leaves all other tables as they are, and in a
coherent table all other keys (`field_rawSet`).
-/
import LuaConfig.Lua.Store
import LuaConfig.Proofs.Lua.Table
import LuaConfig.Script.Reading

namespace LuaConfig

open Lua

namespace Lua

/-- Two tables hold the same, in the same order; their metatables may differ. -/
def Table.SameContents (t t' : Table) : Prop := t' = { t with metatable := t'.metatable }

namespace Table.SameContents

variable {t t' : Table}

theorem refl (t : Table) : t.SameContents t := rfl

variable (h : t.SameContents t')
include h

theorem pairs_eq : t'.pairs = t.pairs := by rw [h]; rfl

theorem getEntry_eq (key : Value) : t'.getEntry key = t.getEntry key := by rw [h]; rfl

theorem get_eq (key : Value) : t'.get key = t.get key := by rw [h]; rfl

end Table.SameContents

namespace Store

variable (σ : Store) {ref ref' : Nat} (key value : Value)

theorem tables_newTable (t : Table) :
    (σ.newTable t).2.tables = σ.tables.push { t with walk := σ.nextWalk } := rfl

/-- A new table stands behind all others. -/
theorem last_newTable (t : Table) : (σ.newTable t).2.tables.size - 1 = σ.tables.size := by
  rw [tables_newTable, Array.size_push, Nat.add_sub_cancel]

theorem tables_rawSet (ref : Nat) (key value : Value) :
    (σ.rawSet ref key value).tables = σ.tables.modify ref (·.set key value) := rfl

theorem table_rawSet_self (hlive : ref < σ.tables.size) :
    (σ.rawSet ref key value).table ref = (σ.table ref).set key value := by
  rw [table, table, tables_rawSet, Array.getD_eq_getD_getElem?, Array.getD_eq_getD_getElem?,
    Array.getElem?_modify, if_pos rfl, Array.getElem?_eq_getElem hlive]
  rfl

theorem table_rawSet_of_ne (hne : ref ≠ ref') :
    (σ.rawSet ref key value).table ref' = σ.table ref' := by
  rw [table, table, tables_rawSet, Array.getD_eq_getD_getElem?, Array.getD_eq_getD_getElem?,
    Array.getElem?_modify, if_neg hne]

end Store

end Lua

namespace Reading

variable (σ : Store) {ref : Nat}

/-- To set the value of a string key changes no other field of the table. -/
theorem field_rawSet (hlive : ref < σ.tables.size) (hcoherent : (σ.table ref).Coherent)
    (key : Octets) (value : Value) (name : String) :
    field (σ.rawSet ref (.str key) value) (.table ref) name =
      if Octets.ofString name = key then value else field σ (.table ref) name := by
  have hset : field (σ.rawSet ref (.str key) value) (.table ref) name =
      ((σ.table ref).setEntry (.str key) value).getEntry (.ofString name) :=
    congrArg (·.field name) (σ.table_rawSet_self (.str key) value hlive)
  have hkeys : Value.str key = .ofString name ↔ Octets.ofString name = key :=
    ⟨fun h => (Value.str.inj h).symm, fun h => congrArg Value.str h.symm⟩
  rw [hset, hcoherent.getEntry_setEntry]
  exact if_congr hkeys rfl rfl

end Reading

end LuaConfig
