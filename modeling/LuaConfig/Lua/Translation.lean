/-
Tables of translations.

A table holds a value for each language under its name, and one for all others at position 1.
-/
import LuaConfig.Lua.Store

namespace LuaConfig.Lua

/-- The value for a language, metatables being left aside. -/
def Table.translation (t : Table) (locale : Octets) : Value :=
  match t.get (.str locale) with
  | .nil => t.get (.int 1)
  | v => v

/-- The translation of a value.  What is no table, or has nothing in it, stays as it is. -/
def Store.translate (σ : Store) (locale : Octets) : Value → Value
  | .table ref =>
    let t := σ.table ref
    if t.isEmpty then .table ref else t.translation locale
  | v => v

end LuaConfig.Lua
