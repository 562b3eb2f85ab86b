/-
The order of overrides in scripts.

Overrides are sorted by name.  Those of one name keep their order (`filter_sortedOverrides`), and
where all names differ the order they came in does not matter (`sortedOverrides_eq_of_perm`).
-/
import LuaConfig.Script.Level
import Mathlib

namespace LuaConfig.Script

/-- Overrides stand in the order of their names. -/
def nameLe (a b : Override) : Bool := !decide (b.name < a.name)

theorem nameLe_iff {a b : Override} : nameLe a b = true ↔ a.name ≤ b.name := by
  rw [nameLe, Bool.not_eq_true', decide_eq_false_iff_not]
  exact String.not_lt

theorem nameLe_trans (a b c : Override) (hab : nameLe a b) (hbc : nameLe b c) : nameLe a c := by
  rw [nameLe_iff] at *
  exact String.le_trans hab hbc

theorem nameLe_total (a b : Override) : nameLe a b || nameLe b a := by
  rw [Bool.or_eq_true, nameLe_iff, nameLe_iff]
  exact String.le_total a.name b.name

theorem sortedOverrides_perm (os : List Override) : (sortedOverrides os).Perm os :=
  List.mergeSort_perm os _

theorem sortedOverrides_pairwise (os : List Override) :
    (sortedOverrides os).Pairwise fun a b => a.name ≤ b.name :=
  (List.pairwise_mergeSort nameLe_trans nameLe_total os).imp nameLe_iff.mp

/-- Overrides of one name keep their order. -/
theorem filter_sortedOverrides (os : List Override) (name : String) :
    (sortedOverrides os).filter (·.name = name) = os.filter (·.name = name) := by
  have hpairwise : (os.filter (·.name = name)).Pairwise fun a b => nameLe a b := by
    refine List.pairwise_filter.mpr (List.pairwise_of_forall fun a b ha hb => nameLe_iff.mpr ?_)
    rw [decide_eq_true_eq] at ha hb
    rw [ha, hb]
  have hsublist : (os.filter (·.name = name)).Sublist (sortedOverrides os) :=
    List.sublist_mergeSort nameLe_trans nameLe_total hpairwise List.filter_sublist
  have hfilter := hsublist.filter (·.name = name)
  simp only [List.filter_filter, Bool.and_self] at hfilter
  exact (hfilter.eq_of_length
    ((sortedOverrides_perm os).filter (·.name = name)).length_eq.symm).symm

/-- Overrides with distinct names are written in one order. -/
theorem sortedOverrides_eq_of_perm {os os' : List Override} (h : os.Perm os')
    (hnodup : (os.map (·.name)).Nodup) : sortedOverrides os = sortedOverrides os' := by
  have hperm : (sortedOverrides os).Perm (sortedOverrides os') :=
    (sortedOverrides_perm os).trans (h.trans (sortedOverrides_perm os').symm)
  refine hperm.eq_of_pairwise (fun a b ha hb hab hba => ?_) (sortedOverrides_pairwise os)
    (sortedOverrides_pairwise os')
  have hname : a.name = b.name := String.le_antisymm hab hba
  have hb' : b ∈ os := h.mem_iff.mpr ((sortedOverrides_perm os').mem_iff.mp hb)
  exact List.inj_on_of_nodup_map hnodup ((sortedOverrides_perm os).mem_iff.mp ha) hb' hname

end LuaConfig.Script
