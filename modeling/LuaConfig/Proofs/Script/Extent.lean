/-
The length of scripts.

A level that has been read back is written in no more characters than before.  It takes as many
only where no name of an override repeats and no zero has a minus sign (`atMost_extent_linesOf`),
and then every field is written as before (`linesOf_of_isSettled`).
-/
import LuaConfig.Proofs.Script.Overrides
import LuaConfig.Proofs.Script.Reread

namespace LuaConfig.Script

open Lua Decimal

/-! ### Bounds that are reached under a condition -/

/-- A number is at most another one, and the same only under a condition. -/
def AtMost (a b : Nat) (p : Prop) : Prop := a ≤ b ∧ (a = b → p)

theorem AtMost.of_holds {a : Nat} {p : Prop} (h : p) : AtMost a a p := ⟨le_rfl, fun _ => h⟩

theorem AtMost.imp {a b : Nat} {p q : Prop} (h : AtMost a b p) (hpq : p → q) : AtMost a b q :=
  ⟨h.1, fun heq => hpq (h.2 heq)⟩

theorem AtMost.add {a b a' b' : Nat} {p q : Prop} (h : AtMost a b p) (h' : AtMost a' b' q) :
    AtMost (a + a') (b + b') (p ∧ q) := by
  have h1 := h.1
  have h2 := h'.1
  exact ⟨by omega, fun heq => ⟨h.2 (by omega), h'.2 (by omega)⟩⟩

theorem AtMost.trans {a b c : Nat} {p q : Prop} (h : AtMost a b p) (h' : AtMost b c q) :
    AtMost a c (p ∧ q) := by
  have h1 := h.1
  have h2 := h'.1
  exact ⟨by omega, fun heq => ⟨h.2 (by omega), h'.2 (by omega)⟩⟩

theorem AtMost.sum {α : Type} {xs : List α} {f g : α → Nat} {p : α → Prop}
    (h : ∀ x ∈ xs, AtMost (f x) (g x) (p x)) :
    AtMost (xs.map f).sum (xs.map g).sum (∀ x ∈ xs, p x) := by
  induction xs with
  | nil => exact .of_holds (by simp)
  | cons x xs ih =>
    rw [List.forall_mem_cons] at h
    rw [List.map_cons, List.map_cons, List.sum_cons, List.sum_cons, List.forall_mem_cons]
    exact h.1.add (ih h.2)

/-! ### Elements that take each other's place -/

section Keys

variable {α κ : Type} [DecidableEq κ] {key : α → κ} {weight : α → Nat}

theorem atMost_sum_upsert (hweight : ∀ x, 0 < weight x) (x : α) (ys : List α) :
    AtMost ((upsert key x ys).map weight).sum (weight x + (ys.map weight).sum)
      (key x ∉ ys.map key) := by
  induction ys with
  | nil => exact .of_holds (by simp)
  | cons y ys ih =>
    rw [upsert]
    by_cases hy : key y = key x
    · have := hweight y
      rw [if_pos hy, List.map_cons, List.map_cons, List.sum_cons, List.sum_cons]
      exact ⟨by omega, fun heq => absurd heq (by omega)⟩
    · rw [if_neg hy, List.map_cons, List.sum_cons, List.map_cons, List.sum_cons, List.map_cons,
        List.mem_cons, not_or, Nat.add_left_comm]
      exact (AtMost.of_holds (Ne.symm hy)).add ih

theorem atMost_sum_upsertAll (hweight : ∀ x, 0 < weight x) (xs : List α) {ys : List α}
    (hnodup : (ys.map key).Nodup) :
    AtMost ((upsertAll key xs ys).map weight).sum ((xs.map weight).sum + (ys.map weight).sum)
      ((ys ++ xs).map key).Nodup := by
  induction xs generalizing ys with
  | nil =>
    rw [List.map_nil, List.sum_nil, Nat.zero_add, List.append_nil]
    exact .of_holds hnodup
  | cons x xs ih =>
    have hupsert : AtMost ((upsert key x ys).map weight).sum _ (key x ∉ ys.map key) :=
      atMost_sum_upsert hweight x ys
    have hstep := (AtMost.of_holds (a := (xs.map weight).sum) trivial).add hupsert
    have hbound := (ih (nodup_upsert x hnodup)).trans hstep
    rw [upsertAll_cons, List.map_cons, List.sum_cons, Nat.add_comm (weight x), Nat.add_assoc]
    refine hbound.imp fun h => ?_
    rw [List.append_cons, ← upsert_of_not_mem h.2.2]
    exact h.1

end Keys

/-! ### Texts -/

/-- The number of characters of lines, each with its end. -/
def extent (lines : List String) : Nat := (lines.map fun line => line.length + 1).sum

theorem extent_append (lines lines' : List String) :
    extent (lines ++ lines') = extent lines + extent lines' := by
  rw [extent, List.map_append, List.sum_append]
  rfl

theorem extent_flatMap {α : Type} (lines : α → List String) (xs : List α) :
    extent (xs.flatMap lines) = (xs.map fun x => extent (lines x)).sum := by
  induction xs with
  | nil => rfl
  | cons x xs ih => rw [List.flatMap_cons, extent_append, ih, List.map_cons, List.sum_cons]

theorem length_join (lines : List String) :
    (String.join (lines.map (· ++ "\n"))).length = extent lines := by
  induction lines with
  | nil => rfl
  | cons line lines ih =>
    rw [List.map_cons, String.join_cons, String.length_append, String.length_append, ih]
    rfl

/-- The numbers that a field carries. -/
def numbersOf : (kind : Kind) → kind.Value → List Float
  | .number, x => [x]
  | .whole, n => [ofInt n.toInt]
  | .scalar, v => v.number?.toList
  | .numbers, items => items
  | .overrides, items => items.filterMap (·.value.number?)
  | _, _ => []

/-- The names of overrides that a field carries. -/
def namesOf : (kind : Kind) → kind.Value → List String
  | .overrides, items => items.map (·.name)
  | _, _ => []

theorem namesOf_of_ne {kind : Kind} (h : kind ≠ .overrides) (v : kind.Value) :
    namesOf kind v = [] := by
  cases kind <;> first
    | rfl
    | exact absurd rfl h

/-- A value is written the same after it has been read back: no name repeats, and no zero has a
minus sign. -/
def IsSettled (kind : Kind) (v : kind.Value) : Prop :=
  (namesOf kind v).Nodup ∧ ∀ x ∈ numbersOf kind v, isNegativeZero x = false

theorem isNegativeZero_ofInt (n : Int64) : isNegativeZero (ofInt n.toInt) = false :=
  (normal_eq_self_iff _).mp (normal_ofInt n)

theorem isNegativeZero_normal (x : Float) : isNegativeZero (normal x) = false :=
  (normal_eq_self_iff _).mp (normal_normal x)

theorem number_rereadScalar {v : Scalar} {x : Float} (h : x ∈ (rereadScalar v).number?) :
    isNegativeZero x = false := by
  cases v with
  | number y =>
    obtain rfl : normal y = x := Option.some.inj h
    exact isNegativeZero_normal y
  | _ => cases h

theorem atMost_length_number (x : Float) :
    AtMost (number (normal x)).length (number x).length (isNegativeZero x = false) := by
  cases hx : isNegativeZero x with
  | false =>
    rw [(normal_eq_self_iff x).mpr hx]
    exact .of_holds rfl
  | true =>
    rw [show x = ofMagnitudeBits true 0 from of_decide_eq_true hx]
    have hlong : (number (ofMagnitudeBits true 0)).length = 2 := by decide
    have hshort : (number (normal (ofMagnitudeBits true 0))).length = 1 := by decide
    rw [hlong, hshort]
    exact ⟨by omega, fun h => absurd h (by omega)⟩

theorem atMost_length_scalar (v : Scalar) :
    AtMost (scalar (rereadScalar v)).length (scalar v).length
      (∀ x ∈ v.number?, isNegativeZero x = false) := by
  cases v with
  | bool b => exact .of_holds (by simp [Scalar.number?])
  | number x => exact (atMost_length_number x).imp fun h => by simpa [Scalar.number?] using h
  | string s => exact .of_holds (by simp [Scalar.number?])

/-! ### Fields -/

/-- The lines of a field with the given key and value. -/
def linesOf (name : String) (kind : Kind) (v : kind.Value) : List String :=
  match rendition? kind v with
  | some r => r.lines name
  | none => []

theorem extent_inline (name text : String) :
    extent (Rendition.lines name (.inline text)) = (key name).length + 5 + text.length := by
  have h2 : "  ".length = 2 := rfl
  have h1 : "=".length = 1 := rfl
  have hcomma : ",".length = 1 := rfl
  simp only [Rendition.lines, extent, List.map_cons, List.map_nil, List.sum_cons, List.sum_nil,
    String.length_append, h2, h1, hcomma]
  omega

theorem extent_block (name : String) (items : List String) :
    extent (Rendition.lines name (.block items)) =
      (key name).length + 7 + ((if items = [] then 0 else 3) +
        (items.map fun item => item.length + 6).sum) := by
  have h2 : "  ".length = 2 := rfl
  have h4 : "    ".length = 4 := rfl
  have hcomma : ",".length = 1 := rfl
  have hopen : "=\x7b".length = 2 := rfl
  have hclose : "  \x7d,".length = 4 := rfl
  have hempty : "=\x7b\x7d,".length = 4 := rfl
  -- without elements one line, else two more than there are elements
  cases items with
  | nil =>
    simp only [Rendition.lines, extent, List.map_cons, List.map_nil, List.sum_cons, List.sum_nil,
      String.length_append, h2, hempty, if_true]
    omega
  | cons item items =>
    have hitems : ((item :: items).map fun item => ("    " ++ item ++ ",")).map
        (fun line => line.length + 1) = (item :: items).map fun item => item.length + 6 := by
      rw [List.map_map]
      refine List.map_congr_left fun item _ => ?_
      simp only [Function.comp_apply, String.length_append, h4, hcomma]
      omega
    rw [if_neg (by simp), Rendition.lines, extent_append]
    · rw [extent, List.map_cons, hitems, extent, List.sum_cons]
      simp only [List.map_cons, List.map_nil, List.sum_cons, List.sum_nil, String.length_append, h2,
        hopen, hclose]
      omega
    · simp

theorem atMost_extent_inline (name : String) {text text' : String} {p : Prop}
    (h : AtMost text'.length text.length p) :
    AtMost (extent (Rendition.lines name (.inline text')))
      (extent (Rendition.lines name (.inline text))) p := by
  rw [extent_inline, extent_inline]
  exact ((AtMost.of_holds trivial).add h).imp And.right

theorem atMost_extent_block (name : String) {items items' : List String} {p : Prop}
    (hempty : items = [] → items' = [])
    (h : AtMost (items'.map fun item => item.length + 6).sum
      (items.map fun item => item.length + 6).sum p) :
    AtMost (extent (Rendition.lines name (.block items')))
      (extent (Rendition.lines name (.block items))) p := by
  rw [extent_block, extent_block]
  obtain ⟨hle, hp⟩ := h
  by_cases hitems : items = []
  · rw [if_pos hitems, if_pos (hempty hitems)]
    exact ⟨by omega, fun heq => hp (by omega)⟩
  · rw [if_neg hitems]
    split <;> exact ⟨by omega, fun heq => hp (by omega)⟩

theorem atMost_extent_numbers (xs : List Float) :
    AtMost (((xs.map normal).map number).map fun item => item.length + 6).sum
      ((xs.map number).map fun item => item.length + 6).sum
      (∀ x ∈ xs, isNegativeZero x = false) := by
  rw [List.map_map, List.map_map, List.map_map]
  exact AtMost.sum fun x _ => ((atMost_length_number x).add (.of_holds trivial)).imp And.left

/-- The room that an override takes in its block. -/
def overrideExtent (o : Override) : Nat := (assignment o).length + 6

theorem atMost_overrideExtent (o : Override) :
    AtMost (overrideExtent (rereadOverride o)) (overrideExtent o)
      (∀ x ∈ o.value.number?, isNegativeZero x = false) := by
  have hassignment : ∀ o : Override,
      overrideExtent o = (key o.name ++ "=").length + 6 + (scalar o.value).length := by
    intro o
    rw [overrideExtent, assignment, String.length_append]
    omega
  rw [hassignment, hassignment]
  exact ((AtMost.of_holds trivial).add (atMost_length_scalar o.value)).imp And.right

theorem sum_overrideExtent_of_perm {os os' : List Override} (h : os'.Perm os) :
    (((sortedOverrides os').map assignment).map fun item => item.length + 6).sum =
      (os.map overrideExtent).sum := by
  rw [List.map_map]
  exact (((sortedOverrides_perm os').trans h).map overrideExtent).sum_eq

theorem atMost_extent_overrides {os os' : List Override} (h : os'.Perm (rereadOverrides os)) :
    AtMost (((sortedOverrides os').map assignment).map fun item => item.length + 6).sum
      (((sortedOverrides os).map assignment).map fun item => item.length + 6).sum
      ((os.map (·.name)).Nodup ∧ ∀ o ∈ os, ∀ x ∈ o.value.number?, isNegativeZero x = false) := by
  have hperm := sortedOverrides_perm os
  have hpos : ∀ o, 0 < overrideExtent o := fun o => by
    rw [overrideExtent]
    omega
  -- items of one name become one, and then each number may lose its sign
  have hcollapse : AtMost ((upsertAll Override.name (sortedOverrides os) []).map overrideExtent).sum
      (((sortedOverrides os).map overrideExtent).sum + 0)
      (([] ++ sortedOverrides os).map Override.name).Nodup :=
    atMost_sum_upsertAll hpos (sortedOverrides os) List.nodup_nil
  have hreread : AtMost ((upsertAll Override.name (sortedOverrides os) []).map
      fun o => overrideExtent (rereadOverride o)).sum _ _ :=
    AtMost.sum fun o _ => atMost_overrideExtent o
  rw [Nat.add_zero, List.nil_append] at hcollapse
  rw [sum_overrideExtent_of_perm h, sum_overrideExtent_of_perm (List.Perm.refl os),
    rereadOverrides, List.map_map, ← (hperm.map overrideExtent).sum_eq]
  refine (hreread.trans hcollapse).imp fun h => ⟨?_, fun o ho => h.1 o ?_⟩
  · exact (hperm.map (·.name)).nodup_iff.mp h.2
  · rw [upsertAll_nil_of_nodup h.2]
    exact hperm.mem_iff.mpr ho

theorem sortedOverrides_eq_nil {os os' : List Override} (h : os'.Perm (rereadOverrides os))
    (hempty : sortedOverrides os = []) : sortedOverrides os' = [] := by
  have hnone : rereadOverrides os = [] := by
    rw [rereadOverrides, hempty]
    rfl
  rw [hnone] at h
  rw [h.eq_nil]
  exact List.mergeSort_nil

/-- A field that has been read back takes no more room, and as much only if it was settled. -/
theorem atMost_extent_linesOf (name : String) (kind : Kind) {v v' : kind.Value}
    (h : Reordered kind (reread kind v) v') :
    AtMost (extent (linesOf name kind v')) (extent (linesOf name kind v)) (IsSettled kind v) := by
  -- only numbers and overrides can become shorter
  cases kind with
  | text =>
    obtain rfl : v' = v := h
    exact .of_holds ⟨List.nodup_nil, by simp [numbersOf]⟩
  | flag =>
    obtain rfl : v' = v := h
    exact .of_holds ⟨List.nodup_nil, by simp [numbersOf]⟩
  | number =>
    obtain rfl : v' = normal v := h
    refine (atMost_extent_inline name (atMost_length_number v)).imp fun h =>
      ⟨List.nodup_nil, ?_⟩
    simpa [numbersOf] using h
  | whole =>
    obtain rfl : v' = rereadWhole v := h
    have hlines : linesOf name .whole (rereadWhole v) = linesOf name .whole v := by
      simp only [linesOf, rendition?, ofInt_rereadWhole]
    rw [hlines]
    exact .of_holds ⟨List.nodup_nil, by simp [numbersOf, isNegativeZero_ofInt]⟩
  | scalar =>
    obtain rfl : v' = rereadScalar v := h
    refine (atMost_extent_inline name (atMost_length_scalar v)).imp fun h =>
      ⟨List.nodup_nil, ?_⟩
    simpa [numbersOf] using h
  | texts =>
    obtain rfl : v' = v := h
    exact .of_holds ⟨List.nodup_nil, by simp [numbersOf]⟩
  | numbers =>
    obtain rfl : v' = v.map normal := h
    refine (atMost_extent_block name (by simp) (atMost_extent_numbers v)).imp fun h =>
      ⟨List.nodup_nil, h⟩
  | overrides =>
    refine (atMost_extent_block name ?_ (atMost_extent_overrides h)).imp fun hsettled =>
      ⟨hsettled.1, fun x hx => ?_⟩
    · intro hempty
      exact List.map_eq_nil_iff.mpr (sortedOverrides_eq_nil h (List.map_eq_nil_iff.mp hempty))
    · obtain ⟨o, ho, hox⟩ := List.mem_filterMap.mp hx
      exact hsettled.2 o ho x hox
  | choice => exact .of_holds ⟨List.nodup_nil, by simp [numbersOf]⟩
  | limit => exact .of_holds ⟨List.nodup_nil, by simp [numbersOf]⟩
  | items => exact .of_holds ⟨List.nodup_nil, by simp [numbersOf]⟩
  | options => exact .of_holds ⟨List.nodup_nil, by simp [numbersOf]⟩

/-! ### Settled fields -/

theorem rereadScalar_eq_self {v : Scalar} (h : ∀ x ∈ v.number?, isNegativeZero x = false) :
    rereadScalar v = v := by
  cases v with
  | number x => rw [rereadScalar, (normal_eq_self_iff x).mpr (h x rfl)]
  | _ => rfl

theorem map_normal_eq_self (xs : List Float) (h : ∀ x ∈ xs, isNegativeZero x = false) :
    xs.map normal = xs := by
  rw [List.map_congr_left (g := id) fun x hx => (normal_eq_self_iff x).mpr (h x hx), List.map_id]

theorem rereadOverrides_of_isSettled {os : List Override} (h : IsSettled .overrides os) :
    rereadOverrides os = sortedOverrides os := by
  have hperm := sortedOverrides_perm os
  have hnodup : ((sortedOverrides os).map Override.name).Nodup :=
    (hperm.map Override.name).nodup_iff.mpr h.1
  have hself : ∀ o ∈ sortedOverrides os, rereadOverride o = id o := by
    intro o ho
    have hplain : rereadScalar o.value = o.value := rereadScalar_eq_self fun x hx =>
      h.2 x (List.mem_filterMap.mpr ⟨o, hperm.mem_iff.mp ho, hx⟩)
    rw [rereadOverride, hplain]
    rfl
  rw [rereadOverrides, upsertAll_nil_of_nodup hnodup, List.map_congr_left hself, List.map_id]

/-- A settled field is written as before. -/
theorem linesOf_of_isSettled (name : String) (kind : Kind) {v v' : kind.Value}
    (hsettled : IsSettled kind v) (h : Reordered kind (reread kind v) v') :
    linesOf name kind v' = linesOf name kind v := by
  -- a settled value is read back as itself, or in an order that the script does not show
  cases kind with
  | number =>
    obtain rfl : v' = normal v := h
    rw [(normal_eq_self_iff v).mpr (hsettled.2 v List.mem_cons_self)]
  | whole =>
    obtain rfl : v' = rereadWhole v := h
    simp only [linesOf, rendition?, ofInt_rereadWhole]
  | scalar =>
    obtain rfl : v' = rereadScalar v := h
    rw [rereadScalar_eq_self fun x hx => hsettled.2 x (Option.mem_toList.mpr hx)]
  | numbers =>
    obtain rfl : v' = v.map normal := h
    rw [map_normal_eq_self v hsettled.2]
  | overrides =>
    have hback : v'.Perm (rereadOverrides v) := h
    rw [rereadOverrides_of_isSettled hsettled] at hback
    have hperm : v.Perm v' := (hback.trans (sortedOverrides_perm v)).symm
    simp only [linesOf, rendition?, sortedOverrides_eq_of_perm hperm hsettled.1]
  | _ =>
    obtain rfl : v' = v := h
    rfl

/-- What has been read back is settled. -/
theorem isSettled_of_reordered (kind : Kind) {v v' : kind.Value}
    (h : Reordered kind (reread kind v) v') : IsSettled kind v' := by
  cases kind with
  | number =>
    obtain rfl : v' = normal v := h
    exact ⟨List.nodup_nil, by simpa [numbersOf] using isNegativeZero_normal v⟩
  | whole => exact ⟨List.nodup_nil, by simp [numbersOf, isNegativeZero_ofInt]⟩
  | scalar =>
    obtain rfl : v' = rereadScalar v := h
    refine ⟨List.nodup_nil, fun x hx => number_rereadScalar (Option.mem_toList.mp hx)⟩
  | numbers =>
    obtain rfl : v' = v.map normal := h
    refine ⟨List.nodup_nil, fun x hx => ?_⟩
    obtain ⟨y, -, rfl⟩ := List.mem_map.mp hx
    exact isNegativeZero_normal y
  | overrides =>
    have hperm : v'.Perm (rereadOverrides v) := h
    refine ⟨(hperm.map Override.name).nodup_iff.mpr (nodup_rereadOverrides v), fun x hx => ?_⟩
    obtain ⟨o, ho, hox⟩ := List.mem_filterMap.mp hx
    obtain ⟨o, -, rfl⟩ := List.mem_map.mp (hperm.mem_iff.mp ho)
    exact number_rereadScalar hox
  | _ => exact ⟨List.nodup_nil, by simp [numbersOf]⟩

end LuaConfig.Script
