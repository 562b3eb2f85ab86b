/-
The globals of scripts.

A script finds what its options tell it in the last fields that its globals are made with, so that
nothing among the libraries hides it (`initialGlobal_folderName`).
-/
import LuaConfig.Proofs.Lua.Table
import LuaConfig.Sandbox.Globals
import LuaConfig.Script.Reading

namespace LuaConfig.Sandbox

open Lua

/-! ### Tables with given fields -/

theorem tableOf_concat (fields : List (String × Value)) (name : String) (v : Value) :
    tableOf (fields ++ [(name, v)]) = (tableOf fields).setEntry (.ofString name) v := by
  rw [tableOf, List.foldl_append]
  rfl

theorem coherent_tableOf (fields : List (String × Value)) : (tableOf fields).Coherent := by
  induction fields using List.reverseRecOn with
  | nil => exact Table.coherent_empty .straight
  | append_singleton fields field ih =>
    rw [tableOf_concat]
    exact ih.setEntry _ _

/-- Of fields that have one name the last one counts. -/
theorem getEntry_tableOf (fields : List (String × Value)) (name : String) :
    (tableOf fields).getEntry (.ofString name) = (fields.reverse.lookup name).getD .nil := by
  induction fields using List.reverseRecOn with
  | nil =>
    rw [(coherent_tableOf []).getEntry_eq]
    rfl
  | append_singleton fields field ih =>
    obtain ⟨key, v⟩ := field
    rw [tableOf_concat, (coherent_tableOf fields).getEntry_setEntry, List.reverse_concat,
      List.lookup_cons, ih]
    by_cases hkey : key = name
    · rw [if_pos (congrArg Value.ofString hkey), beq_iff_eq.mpr hkey.symm]
      rfl
    · have hne : Value.ofString key ≠ .ofString name :=
        fun h => hkey (Octets.ofString_inj (Value.str.inj h))
      rw [if_neg hne, beq_eq_false_iff_ne.mpr (Ne.symm hkey)]

/-! ### What options tell -/

/-- The value that a script finds under a name before it has set anything. -/
def initialGlobal (options : SandboxOptions) (choices : Choices) (name : String) : Value :=
  Reading.field (prepare options choices) (.table (prepare options choices).globals) name

/-- The globals end with what the options tell. -/
theorem exists_globals (options : SandboxOptions) (choices : Choices) :
    ∃ base, (prepare options choices).table (prepare options choices).globals =
      { tableOf (base ++ optionFields options) with walk := choices.walk 0 } := by
  let added := addLibraries (emptyStore choices)
  refine ⟨[("_G", .table added.2.globals), ("_VERSION", .ofString "Lua 5.4")] ++
    Builtin.globals.map (fun e => (e.1, Value.builtin e.2)) ++ added.1, ?_⟩
  have hglobals : (addLibraries (emptyStore choices)).2.globals = 0 := rfl
  unfold prepare
  simp only [Store.table, Store.modifyTable, Store.newTable, hglobals, Array.getD_eq_getD_getElem?,
    Array.getElem?_modify, if_pos]
  rw [Array.getElem?_eq_getElem (by rw [Array.size_push]; omega), Option.map_some,
    Option.getD_some]
  rfl

/-- A script finds the name of its folder among its globals. -/
theorem initialGlobal_folderName (options : SandboxOptions) (choices : Choices) :
    initialGlobal options choices folderNameKey = .ofString options.folderName := by
  obtain ⟨base, hglobals⟩ := exists_globals options choices
  show ((prepare options choices).table (prepare options choices).globals).getEntry
    (.ofString folderNameKey) = _
  rw [hglobals]
  show (tableOf (base ++ optionFields options)).getEntry (.ofString folderNameKey) = _
  rw [getEntry_tableOf, List.reverse_append]
  rfl

end LuaConfig.Sandbox
