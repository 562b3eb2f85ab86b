/-
Choices that are described by their data.

A choice without a description is shown as its data is.  Numbers among data are doubles, so that an
integer is shown as its double is: as another integer, possibly, beyond `2 ^ 53`.  In all other
cases the data might as well have been given as the description (`item_described_iff`).
-/
import LuaConfig.Proofs.Script.Footprint
import LuaConfig.Proofs.Script.Number
import LuaConfig.Sandbox.Globals

namespace LuaConfig

open Lua Decimal

/-- A value has a text that its double keeps: an integer is the one that its double shows, and there
is nothing to say of other values. -/
def Lua.Value.KeepsText : Value → Prop
  | .int n => shown n.toInt = n.toInt
  | _ => True

namespace Reading

variable {σ : Store} {ref : Nat}

/-- The text shown for data. -/
def shownData (v : Value) : String := (v.scalar?.map Scalar.display).getD ""

theorem shownData_int (n : Int64) : shownData (.int n) = toString (shown n.toInt) :=
  plain_ofInt (Script.toInt_natAbs_le n)

/-- What has a text is shown as that text if its double keeps it, and not otherwise. -/
theorem shownData_eq_iff {v : Value} {s : String} (h : v.text? = some s) :
    shownData v = s ↔ v.KeepsText := by
  cases v with
  | int n =>
    obtain rfl : toString n.toInt = s := Option.some.inj h
    rw [shownData_int]
    exact ⟨fun heq => Int.repr_injective heq, congrArg toString⟩
  | str t =>
    obtain rfl : t.text = s := Option.some.inj h
    exact iff_of_true rfl trivial
  | float x =>
    obtain rfl : plain x = s := Option.some.inj h
    exact iff_of_true rfl trivial
  | _ => cases h

/-- What is shown for a choice whose description is the value of its data. -/
theorem described_eq_iff (v : Value) :
    (if (v.text?.getD "").isEmpty then shownData v else v.text?.getD "") = shownData v ↔
      v.KeepsText := by
  cases v with
  | int n =>
    have htext : (Value.int n).text?.getD "" = toString n.toInt := rfl
    have hempty : (toString n.toInt).isEmpty = false := by
      rw [Bool.eq_false_iff, ne_eq, String.isEmpty_iff]
      exact toString_ne_empty _
    rw [htext, hempty, if_neg Bool.false_ne_true, ← shownData_eq_iff (v := .int n) rfl]
    exact eq_comm
  | str _ | float _ => exact iff_of_true (ite_self _) trivial
  | _ => exact iff_of_true rfl trivial

/-! ### A description is given -/

/-- The choice has no text as its description. -/
def Undescribed (σ : Store) (v : Value) : Prop := (field σ v "description").text?.getD "" = ""

theorem item_of_undescribed {v : Value} (h : Undescribed σ v) :
    item σ v = ⟨shownData (field σ v "data"), (field σ v "data").scalar?⟩ := by
  rw [item, h]
  rfl

section Given

variable (hlive : ref < σ.tables.size) (hcoherent : (σ.table ref).Coherent)
include hlive hcoherent

/-- The choice with a description, which is shown if it is a text. -/
theorem item_rawSet (v : Value) :
    item (σ.rawSet ref (.ofString "description") v) (.table ref) =
      ⟨if (v.text?.getD "").isEmpty then shownData (field σ (.table ref) "data")
        else v.text?.getD "", (field σ (.table ref) "data").scalar?⟩ := by
  have hkeys : Octets.ofString "data" ≠ Octets.ofString "description" := by decide
  have hfield (name : String) : field (σ.rawSet ref (.ofString "description") v) (.table ref) name =
      if Octets.ofString name = Octets.ofString "description" then v
      else field σ (.table ref) name :=
    field_rawSet σ hlive hcoherent _ v name
  rw [item, hfield, hfield, if_neg hkeys, if_pos rfl]
  rfl

/-- A choice without a description is the same as if its data were its description, if the data
keeps its text, and not otherwise. -/
theorem item_described_iff (h : Undescribed σ (.table ref)) :
    item (σ.rawSet ref (.ofString "description") (field σ (.table ref) "data")) (.table ref) =
      item σ (.table ref) ↔ (field σ (.table ref) "data").KeepsText := by
  rw [item_rawSet hlive hcoherent, item_of_undescribed h, OptionItem.mk.injEq]
  exact (and_iff_left rfl).trans (described_eq_iff _)

/-- The same in a list of choices. -/
theorem items_described_iff (h : Undescribed σ (.table ref)) {list : Value}
    (hmem : .table ref ∈ tables σ list) (hne : list ≠ .table ref) :
    items (σ.rawSet ref (.ofString "description") (field σ (.table ref) "data")) list =
      items σ list ↔ (field σ (.table ref) "data").KeepsText := by
  have hother {v : Value} (hv : v ≠ .table ref) : σ.Agree (σ.rawSet ref (.ofString "description")
      (field σ (.table ref) "data")) (tableOf v) := by
    refine agree_rawSet (fun href => hv ?_) _ _
    cases v with
    | table r => exact congrArg Value.table (List.mem_singleton.mp href).symm
    | _ => cases href
  rw [items, items, tables_eq (hother hne), List.map_inj_left,
    ← item_described_iff hlive hcoherent h]
  refine ⟨fun hall => hall _ hmem, fun heq w hw => ?_⟩
  by_cases hw' : w = .table ref
  · rw [hw', heq]
  · exact item_eq (hother hw')

end Given

/-- A choice that has data and no description is the same as if its data were its description, alone
and in a list, if and only if the data keeps its text.  The description of data that has a text is
that text, under the same condition, and that of an integer is what its double shows.  The condition
holds of all data save integers beyond `2 ^ 53` that are no double, or not the one that is shown. -/
theorem described_by_data (hlive : ref < σ.tables.size) (hcoherent : (σ.table ref).Coherent)
    (h : Undescribed σ (.table ref)) :
    let v := field σ (.table ref) "data"
    let σ' := σ.rawSet ref (.ofString "description") v
    (item σ' (.table ref) = item σ (.table ref) ↔ v.KeepsText) ∧
    (∀ list, .table ref ∈ tables σ list → list ≠ .table ref →
      (items σ' list = items σ list ↔ v.KeepsText)) ∧
    (∀ s, v.text? = some s → ((item σ (.table ref)).description = s ↔ v.KeepsText)) ∧
    (∀ n, v = .int n → (item σ (.table ref)).description = toString (shown n.toInt)) ∧
    ((∀ n, v = .int n → n.toInt.natAbs ≤ 2 ^ 53) → v.KeepsText) := by
  intro v σ'
  refine ⟨item_described_iff hlive hcoherent h,
    fun list hmem hne => items_described_iff hlive hcoherent h hmem hne, fun s hs => ?_,
    fun n hn => ?_, fun hsmall => ?_⟩
  · rw [item_of_undescribed h]
    exact shownData_eq_iff hs
  · rw [item_of_undescribed h, ← shownData_int, ← hn]
  · cases hv : v with
    | int n => exact shown_of_exact (hsmall n hv)
    | _ => trivial

/-- A store with a list of one choice. -/
def choiceStore (data : Value) : Store :=
  { Sandbox.emptyStore {} with
    tables := #[Sandbox.tableOf [("data", data)], Sandbox.tableOf [("first", .table 0)]] }

theorem coherent_choice (data : Value) : ((choiceStore data).table 0).Coherent :=
  (Table.coherent_empty .straight).setEntry (.ofString "data") data

/-- Beyond `2 ^ 53` there are integers whose double shows them. -/
theorem described_by_data_even :
    (0 < (choiceStore (.int 9007199254740994)).tables.size ∧
      ((choiceStore (.int 9007199254740994)).table 0).Coherent ∧
      Undescribed (choiceStore (.int 9007199254740994)) (.table 0)) ∧
    items ((choiceStore (.int 9007199254740994)).rawSet 0 (.ofString "description")
      (.int 9007199254740994)) (.table 1) =
        items (choiceStore (.int 9007199254740994)) (.table 1) ∧
    (item (choiceStore (.int 9007199254740994)) (.table 0)).description = "9007199254740994" := by
  have hdata : field (choiceStore (.int 9007199254740994)) (.table 0) "data" =
      .int 9007199254740994 := by decide +kernel
  have hundescribed : Undescribed (choiceStore (.int 9007199254740994)) (.table 0) := by
    unfold Undescribed
    decide +kernel
  have hkeeps : (Value.int 9007199254740994).KeepsText := by
    show shown 9007199254740994 = 9007199254740994
    decide +kernel
  have hmem : Value.table 0 ∈ tables (choiceStore (.int 9007199254740994)) (.table 1) := by
    decide +kernel
  obtain ⟨-, hitems, htext, -, -⟩ :=
    described_by_data (by decide) (coherent_choice (.int 9007199254740994)) hundescribed
  rw [hdata] at hitems htext
  exact ⟨⟨by decide, coherent_choice _, hundescribed⟩,
    (hitems _ hmem (by decide)).mpr hkeeps, (htext _ (by decide +kernel)).mpr hkeeps⟩

/-- The least positive integer that is no double is described as its neighbour. -/
theorem described_by_data_odd :
    ¬ ∀ (σ : Store) (ref : Nat), ref < σ.tables.size → (σ.table ref).Coherent →
      field σ (.table ref) "description" = .nil →
      item (σ.rawSet ref (.ofString "description") (field σ (.table ref) "data")) (.table ref) =
        item σ (.table ref) := by
  intro hall
  have hdata : field (choiceStore (.int 9007199254740993)) (.table 0) "data" =
      .int 9007199254740993 := by decide +kernel
  have hnil : field (choiceStore (.int 9007199254740993)) (.table 0) "description" = .nil := by
    decide +kernel
  have hsame := hall _ 0 (by decide) (coherent_choice (.int 9007199254740993)) hnil
  have hundescribed : Undescribed (choiceStore (.int 9007199254740993)) (.table 0) := by
    rw [Undescribed, hnil]
    rfl
  rw [item_described_iff (by decide) (coherent_choice _) hundescribed, hdata] at hsame
  have hneighbour : shown 9007199254740993 = 9007199254740992 := by decide +kernel
  exact absurd (hneighbour.symm.trans hsame) (by decide)

end Reading

end LuaConfig
