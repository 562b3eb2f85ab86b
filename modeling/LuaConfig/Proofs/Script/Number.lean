/-
The numbers that scripts carry, written and read again.

A double is written as a numeral or as a quotient, with a minus sign where it is negative.  The
number that such an expression has (`numberValue`) is the double again, but for the sign of a zero
(`toFloat_numberValue`).  An integer that is written as a double comes back as the one that the text
shows, cut to 64 bits (`whole_numberValue`), and is then written alike (`ofInt_clip_shown`).
-/
import LuaConfig.Lua.Operation.Number
import LuaConfig.Lua.Projection
import LuaConfig.Proofs.Decimal.Whole
import LuaConfig.Proofs.Lua.Numeral
import LuaConfig.Script.Literal

namespace LuaConfig

open Decimal Lua

/-! ### Integers cut to 64 bits -/

namespace Lua.Value

theorem clip_of_range {n : Int} (hlow : -2 ^ 63 ≤ n) (hhigh : n < 2 ^ 63) :
    (clip n).toInt = n := by
  unfold clip
  rw [if_neg (by omega), if_neg (by omega), Numeral.toInt_ofInt hlow hhigh]

theorem clip_of_le {n : Int} (h : 2 ^ 63 ≤ n) : clip n = Int64.maxValue := by
  unfold clip
  rw [if_neg (by omega), if_pos h]

theorem clip_of_ge {n : Int} (h : n ≤ -2 ^ 63) : clip n = Int64.minValue := by
  rcases h.lt_or_eq with hlt | rfl
  · exact if_pos hlt
  · rfl

theorem eq_clip_of_range {n : Int64} {i : Int} (h : n.toInt = i) : n = clip i := by
  have hlow := n.le_toInt
  have hhigh := n.toInt_lt
  exact Int64.toInt_inj.mp (h.trans (clip_of_range (by omega) (by omega)).symm)

end Lua.Value

namespace Script

open Float.Model (UnpackedFloat)

/-! ### Doubles up to the sign of a zero -/

/-- A double, without its sign if it is zero. -/
def normal (x : Float) : Float :=
  match Binary64.ofFloat x with
  | .finite _ 0 _ => ofMagnitudeBits false 0
  | _ => x

/-- Two doubles are one number, whatever the sign of a zero, or neither is a number. -/
def SameNumber (x y : Float) : Prop := x == y ∨ (x.isNaN ∧ y.isNaN)

/-- Is a double the zero with a minus sign? -/
def isNegativeZero (x : Float) : Bool := x = ofMagnitudeBits true 0

/-- Doubles compare as equal if they are one and not NaN, or if both are zeros. -/
theorem beq_iff (u v : UnpackedFloat) :
    u.beq v ↔ (u = v ∧ u ≠ .notANumber) ∨ (∃ s t, u = .zero s ∧ v = .zero t) := by
  have hfinite : ∀ (e e' : Int) (m m' : Nat),
      (compare e e').then (compare m m') = .eq ↔ m = m' ∧ e = e' := by
    intro e e' m m'
    rw [Ordering.then_eq_eq, Std.compare_eq_iff_eq, Std.compare_eq_iff_eq, and_comm]
  -- Two numbers with a sign are compared sign by sign.
  rcases u with s | _ | s | s <;> rcases v with t | _ | t | t <;> try cases s
  all_goals try cases t
  all_goals simp [UnpackedFloat.beq, UnpackedFloat.compare, hfinite]
  all_goals decide

theorem sameNumber_iff (x y : Float) :
    SameNumber x y ↔ x.toModel.unpack = y.toModel.unpack ∨
      ∃ s t, x.toModel.unpack = .zero s ∧ y.toModel.unpack = .zero t := by
  have hnan : ∀ u : UnpackedFloat, u.isNaN ↔ u = .notANumber := by
    intro u
    cases u <;> simp [UnpackedFloat.isNaN]
  show x.toModel.unpack.beq y.toModel.unpack ∨
    (x.toModel.unpack.isNaN ∧ y.toModel.unpack.isNaN) ↔ _
  rw [beq_iff, hnan, hnan]
  grind

theorem SameNumber.refl (x : Float) : SameNumber x x :=
  (sameNumber_iff x x).mpr (Or.inl rfl)

theorem SameNumber.symm {x y : Float} (h : SameNumber x y) : SameNumber y x := by
  rw [sameNumber_iff] at h ⊢
  grind

theorem SameNumber.trans {x y z : Float} (h : SameNumber x y) (h' : SameNumber y z) :
    SameNumber x z := by
  rw [sameNumber_iff] at *
  grind

theorem zero_eq_ofMagnitudeBits {x : Float} {negative : Bool} {q : Int}
    (h : Binary64.ofFloat x = .finite negative 0 q) : x = ofMagnitudeBits negative 0 := by
  obtain ⟨hc, hx⟩ := eq_ofMagnitudeBits h
  rcases hc.full with h0 | rfl
  · exact absurd h0 (by decide)
  · rw [hx]
    congr 1

theorem normal_of_zero {x : Float} {negative : Bool} {q : Int}
    (h : Binary64.ofFloat x = .finite negative 0 q) : normal x = ofMagnitudeBits false 0 := by
  simp only [normal, h]

theorem normal_of_pos {x : Float} {negative : Bool} {m : Nat} {q : Int}
    (h : Binary64.ofFloat x = .finite negative m q) (hm : 0 < m) : normal x = x := by
  obtain ⟨k, rfl⟩ : ∃ k, m = k + 1 := ⟨m - 1, by omega⟩
  simp only [normal, h]

theorem sameNumber_normal (x : Float) : SameNumber x (normal x) := by
  rcases h : Binary64.ofFloat x with _ | s | ⟨s, m, q⟩
  · rw [normal, h]
    exact SameNumber.refl x
  · rw [normal, h]
    exact SameNumber.refl x
  · rcases Nat.eq_zero_or_pos m with rfl | hm
    · rw [normal_of_zero h, zero_eq_ofMagnitudeBits h]
      cases s <;> exact Or.inl (by decide)
    · rw [normal_of_pos h hm]
      exact SameNumber.refl x

theorem normal_eq_self_iff (x : Float) : normal x = x ↔ isNegativeZero x = false := by
  have hne : ofMagnitudeBits false 0 ≠ ofMagnitudeBits true 0 := by
    intro heq
    have := ofFloat_zero false
    rw [heq, ofFloat_zero true] at this
    cases this
  unfold isNegativeZero
  rw [decide_eq_false_iff_not]
  -- the only double that is changed is the zero that has a sign
  constructor
  · rintro h rfl
    rw [normal_of_zero (ofFloat_zero true)] at h
    exact hne h
  · intro h
    rcases hx : Binary64.ofFloat x with _ | s | ⟨s, m, q⟩
    · rw [normal, hx]
    · rw [normal, hx]
    · rcases Nat.eq_zero_or_pos m with rfl | hm
      · have hz := zero_eq_ofMagnitudeBits hx
        cases s
        · rw [normal_of_zero hx, hz]
        · exact absurd hz h
      · exact normal_of_pos hx hm

theorem normal_normal (x : Float) : normal (normal x) = normal x := by
  rcases h : Binary64.ofFloat x with _ | s | ⟨s, m, q⟩
  · have hx : normal x = x := by rw [normal, h]
    rw [hx, hx]
  · have hx : normal x = x := by rw [normal, h]
    rw [hx, hx]
  · rcases Nat.eq_zero_or_pos m with rfl | hm
    · rw [normal_of_zero h, normal_of_zero (ofFloat_zero false)]
    · rw [normal_of_pos h hm, normal_of_pos h hm]

/-! ### The number of a text -/

/-- The number that the text of `m · 2 ^ q` is read as. -/
def magnitudeNumber (m : Nat) (q : Int) : Number :=
  (Numeral.ofChars? (magnitudeText m q).toList).getD (.int 0)

/-- A number behind a minus sign, if there is one. -/
def withSign (negative : Bool) (n : Number) : Number :=
  match negative, n with
  | true, .int n => .int (0 - n)
  | true, .float x => .float (-x)
  | false, n => n

/-- The number that the text of a double stands for. -/
def numberValue (x : Float) : Number :=
  match Binary64.ofFloat x with
  | .finite negative m q => withSign negative (magnitudeNumber m q)
  | _ => .float x

theorem ofChars_zero (q : Int) :
    Numeral.ofChars? (magnitudeText 0 q).toList = some (.int 0) := by
  rw [magnitudeText, if_pos rfl]
  decide

/-- The text of a double without its sign is a numeral. -/
theorem ofChars_magnitudeText {m : Nat} {q : Int} (hc : Canonical m q) :
    Numeral.ofChars? (magnitudeText m q).toList = some (magnitudeNumber m q) := by
  unfold magnitudeNumber
  rcases Nat.eq_zero_or_pos m with rfl | hm
  · rw [ofChars_zero, Option.getD_some]
  · rcases Numeral.ofChars_magnitudeText hc hm with h | ⟨n, h, -⟩ <;> rw [h, Option.getD_some]

theorem toInt_zero_sub {n : Int64} (h : 0 < n.toInt) : (0 - n).toInt = -n.toInt := by
  have hlt := n.toInt_lt
  rw [Int64.toInt_sub, Int64.toInt_zero, Int.zero_sub, Int.bmod_eq_of_le] <;> omega

theorem withSign_float (negative : Bool) {bits : Nat} (h : bits ≤ infinityBits) :
    withSign negative (.float (ofMagnitudeBits false bits)) =
      .float (ofMagnitudeBits negative bits) := by
  cases negative
  · rfl
  · show Number.float (-_) = _
    rw [neg_ofMagnitudeBits false h]
    rfl

/-- The number of a finite text: the double itself, or an integer that is rounded to it. -/
theorem withSign_magnitudeNumber (negative : Bool) {m : Nat} {q : Int} (hc : Canonical m q)
    (hm : 0 < m) :
    withSign negative (magnitudeNumber m q) = .float (ofMagnitudeBits negative (magnitude m q)) ∨
    ∃ n : Int64, withSign negative (magnitudeNumber m q) = .int n ∧
      Value.toFloat n = ofMagnitudeBits negative (magnitude m q) := by
  have hread := ofChars_magnitudeText hc
  -- the numeral is a float, or an integer that is rounded to the same double
  rcases Numeral.ofChars_magnitudeText hc hm with h | ⟨n, h, hpos, hround⟩
  · rw [h, Option.some_inj] at hread
    rw [← hread]
    exact Or.inl (withSign_float negative (magnitude_lt hc).le)
  · rw [h, Option.some_inj] at hread
    rw [← hread]
    cases negative
    · refine Or.inr ⟨n, rfl, ?_⟩
      rw [Numeral.toFloat_of_rounds hc hm hround]
      congr 1
      simpa using hpos.le
    · refine Or.inr ⟨0 - n, rfl, ?_⟩
      have hneg := toInt_zero_sub hpos
      rw [Numeral.toFloat_of_rounds hc hm (by rw [hneg, Int.natAbs_neg]; exact hround)]
      congr 1
      rw [hneg]
      simpa using hpos

/-- The text of a double stands for the double itself or for an integer of its value. -/
theorem numberValue_cases (x : Float) :
    numberValue x = .float (normal x) ∨
      ∃ n : Int64, numberValue x = .int n ∧ Value.toFloat n = normal x := by
  unfold numberValue
  rcases h : Binary64.ofFloat x with _ | s | ⟨s, m, q⟩
  · exact Or.inl (by rw [normal, h])
  · exact Or.inl (by rw [normal, h])
  · obtain ⟨hc, hx⟩ := eq_ofMagnitudeBits h
    rcases Nat.eq_zero_or_pos m with rfl | hm
    · refine Or.inr ⟨0, ?_, ?_⟩
      · simp only [magnitudeNumber, ofChars_zero]
        cases s <;> rfl
      · rw [normal_of_zero h]
        rfl
    · rw [normal_of_pos h hm, hx]
      exact withSign_magnitudeNumber s hc hm

theorem toFloat_numberValue (x : Float) : (numberValue x).toFloat = normal x := by
  rcases numberValue_cases x with h | ⟨n, h, hn⟩
  · rw [h, Number.toFloat]
  · rw [h, Number.toFloat, hn]

theorem double_toValue (n : Number) : n.toValue.double? = some n.toFloat := by
  cases n <;> rfl

theorem scalar_toValue (n : Number) : n.toValue.scalar? = some (.number n.toFloat) := by
  cases n <;> rfl

theorem double_numberValue (x : Float) : (numberValue x).toValue.double? = some (normal x) := by
  rw [double_toValue, toFloat_numberValue]

theorem scalar_numberValue (x : Float) :
    (numberValue x).toValue.scalar? = some (.number (normal x)) := by
  rw [scalar_toValue, toFloat_numberValue]

/-! ### Integers written as doubles -/

theorem toInt_natAbs_le (n : Int64) : n.toInt.natAbs ≤ 2 ^ 63 := by
  have h1 := n.le_toInt
  have h2 := n.toInt_lt
  omega

theorem normal_ofInt (n : Int64) : normal (ofInt n.toInt) = ofInt n.toInt := by
  rcases Nat.eq_zero_or_pos n.toInt.natAbs with h0 | h0
  · rw [Int.natAbs_eq_zero.mp h0, ofInt_zero]
    exact normal_of_zero (ofFloat_zero false)
  · obtain ⟨m, q, value, hc, hm, hround, -⟩ := exists_rounds h0 (toInt_natAbs_le n)
    rw [ofInt_of_rounds hc hm hround]
    exact normal_of_pos (ofFloat_ofMagnitudeBits _ hc) hm

/-- The number that the text of an integer has. -/
theorem magnitudeNumber_of_repr {m n : Nat} {q : Int} (hc : Canonical m q) (hm : 0 < m)
    (htext : magnitudeText m q = Nat.repr n) (hround : RoundsTo m q n) :
    magnitudeNumber m q = if n < 2 ^ 63 then .int (Int64.ofInt n)
      else .float (ofMagnitudeBits false (magnitude m q)) := by
  have hdouble : ofDecimal false n 0 = ofMagnitudeBits false (magnitude m q) :=
    ofDecimal_of_rounds false hc hm (by simpa using hround)
  rw [magnitudeNumber, htext, Nat.toList_repr,
    Numeral.ofChars_digits Nat.toDigits_ne_nil (digits_toDigits n), ofDigitChars_toDigits, hdouble]
  rfl

/-- A double that is an integer, cut to 64 bits. -/
theorem whole_signed {m value : Nat} {q : Int} (negative : Bool) (hc : Canonical m q)
    (hvalue : (value : ℚ) = m * 2 ^ q) :
    (withSign negative (.float (ofMagnitudeBits false (magnitude m q)))).toValue.whole? =
      some (Value.clip (if negative then -(value : Int) else value)) := by
  rw [withSign_float negative (magnitude_lt hc).le, Number.toValue, Value.whole?, Value.truncate?,
    ofFloat_ofMagnitudeBits _ hc, truncate_of_value _ hvalue]
  rfl

/-- An integer that is written as a double comes back as the one that the text shows, cut to 64
bits. -/
theorem whole_numberValue (n : Int64) :
    (numberValue (ofInt n.toInt)).toValue.whole? = some (Value.clip (shown n.toInt)) := by
  by_cases h0 : n.toInt = 0
  · rw [h0]
    decide
  obtain ⟨m, q, h⟩ := exists_shows h0 (toInt_natAbs_le n)
  have hneg := h.neg_iff
  have hlimit := h.value_of_large
  have hpos : 0 < (shown n.toInt).natAbs := by
    have := h.rounds_shown.pos h.pos
    exact_mod_cast this
  have hnumber := magnitudeNumber_of_repr h.canonical h.pos h.text_eq h.rounds_shown
  simp only [numberValue, h.ofFloat_eq, hnumber]
  generalize shown n.toInt = s at hneg hpos hlimit ⊢
  split
  · next hfits =>
    -- the text is an integer of 64 bits
    have hint : (Int64.ofInt s.natAbs).toInt = s.natAbs :=
      Numeral.toInt_ofInt (by omega) (by omega)
    by_cases hsign : n.toInt < 0
    · rw [decide_eq_true hsign]
      refine congrArg some (Value.eq_clip_of_range ?_ : 0 - Int64.ofInt s.natAbs = _)
      rw [toInt_zero_sub (by omega), hint]
      omega
    · rw [decide_eq_false hsign]
      refine congrArg some (Value.eq_clip_of_range ?_ : Int64.ofInt s.natAbs = _)
      rw [hint]
      omega
  · next hlarge =>
    -- only `2 ^ 63` has a text that is larger
    rw [whole_signed _ h.canonical (hlimit (by omega))]
    by_cases hsign : n.toInt < 0
    · rw [Value.clip_of_ge (n := s) (by omega), if_pos (by simpa using hsign)]
      rfl
    · rw [Value.clip_of_le (n := s) (by omega), if_neg (by simpa using hsign)]
      rfl

theorem ofInt_maxValue : ofInt Int64.maxValue.toInt = ofInt (2 ^ 63) := by decide

/-- What comes back is written alike. -/
theorem ofInt_clip_shown (n : Int64) :
    ofInt (Value.clip (shown n.toInt)).toInt = ofInt n.toInt := by
  rcases lt_or_ge (shown n.toInt).natAbs (2 ^ 63) with hsmall | hlarge
  · rw [Value.clip_of_range (by omega) (by omega), ofInt_shown (toInt_natAbs_le n)]
  · have h0 : n.toInt ≠ 0 := by
      intro h0
      rw [h0, shown_zero] at hlarge
      exact absurd hlarge (by decide)
    obtain ⟨m, q, h⟩ := exists_shows h0 (toInt_natAbs_le n)
    have hneg := h.neg_iff
    have hround : RoundsTo m q ((2 ^ 63 : Nat) : ℚ) :=
      h.value_of_large hlarge ▸ RoundsTo.self m q
    -- an end of the range is rounded to the same double as the integer shown
    have hsigned : ∀ i : Int, i.natAbs = 2 ^ 63 → (i < 0 ↔ n.toInt < 0) →
        ofInt i = ofInt n.toInt := by
      intro i hi hsign
      rw [ofInt_of_rounds h.canonical h.pos h.rounds,
        ofInt_of_rounds h.canonical h.pos (by rw [hi]; exact hround)]
      simp only [hsign]
    by_cases hsign : n.toInt < 0
    · rw [Value.clip_of_ge (by omega)]
      exact hsigned _ rfl (iff_of_true (by decide) hsign)
    · rw [Value.clip_of_le (by omega), ofInt_maxValue]
      exact hsigned _ rfl (iff_of_false (by decide) hsign)

end Script

end LuaConfig
