/-
Decimals that read back.

`shortest` gives a decimal in the interval of its double (`shortest_rounds`), whether it was found
on a grid or stands for every digit of the double.  Reading such a decimal gives the double again
(`ofDecimal_of_rounds`): the exponents that `ofDecimal` cuts off are those of no double.
-/
import LuaConfig.Decimal.Reading
import LuaConfig.Proofs.Decimal.Nearest

namespace LuaConfig.Decimal

/-- The number that a decimal is. -/
def Scaled.value (d : Scaled) : ℚ := d.digits * 10 ^ d.exponent

/-! ### Grids -/

theorem scaled_le_iff (a c S : Nat) (hS : 0 < S) (k : Int) :
    a * 10 ^ (-k).toNat ≤ c * 10 ^ k.toNat * S ↔ (a / S : ℚ) ≤ c * 10 ^ k := by
  have hSq : (0 : ℚ) < S := by exact_mod_cast hS
  have hp : (0 : ℚ) < 10 ^ (-k).toNat := by positivity
  rw [zpow_eq_div 10 k, div_le_iff₀ hSq, mul_div_assoc', div_mul_eq_mul_div, le_div_iff₀ hp]
  exact_mod_cast Iff.rfl

theorem scaled_ge_iff (a c S : Nat) (hS : 0 < S) (k : Int) :
    c * 10 ^ k.toNat * S ≤ a * 10 ^ (-k).toNat ↔ (c * 10 ^ k : ℚ) ≤ a / S := by
  have hSq : (0 : ℚ) < S := by exact_mod_cast hS
  have hp : (0 : ℚ) < 10 ^ (-k).toNat := by positivity
  rw [zpow_eq_div 10 k, le_div_iff₀ hSq, mul_div_assoc', div_mul_eq_mul_div, div_le_iff₀ hp]
  exact_mod_cast Iff.rfl

theorem scaled_lt_iff (a c S : Nat) (hS : 0 < S) (k : Int) :
    a * 10 ^ (-k).toNat < c * 10 ^ k.toNat * S ↔ (a / S : ℚ) < c * 10 ^ k := by
  rw [← not_le, scaled_ge_iff a c S hS, not_le]

theorem scaled_gt_iff (a c S : Nat) (hS : 0 < S) (k : Int) :
    c * 10 ^ k.toNat * S < a * 10 ^ (-k).toNat ↔ (c * 10 ^ k : ℚ) < a / S := by
  rw [← not_le, scaled_le_iff a c S hS, not_le]

theorem around_scale_pos (m : Nat) (q : Int) : 0 < (Interval.around m q).scale := by
  show 0 < 2 ^ (2 - q).toNat
  positivity

theorem two_zpow_sub_two (q : Int) :
    ((2 ^ (q - 2).toNat : Nat) : ℚ) / ((2 ^ (2 - q).toNat : Nat) : ℚ) = 2 ^ q / 4 := by
  have h1 : (2 : ℚ) ^ q = 2 ^ (q - 2) * 4 := by
    have := two_zpow_add (q - 2) 2
    norm_num at this
    exact this
  have h2 : 2 - q = -(q - 2) := by ring
  rw [h1, h2, zpow_eq_div 2 (q - 2)]
  push_cast
  ring

theorem around_low {m : Nat} (q : Int) (hm : 0 < m) :
    ((Interval.around m q).low / (Interval.around m q).scale : ℚ) = (m - gap m q) * 2 ^ q := by
  -- the interval is given in quarters of the unit
  have key : ∀ below : Nat, below ≤ 2 →
      (((4 * m - below) * 2 ^ (q - 2).toNat : Nat) : ℚ) / ((2 ^ (2 - q).toNat : Nat) : ℚ) =
        (m - below / 4) * 2 ^ q := by
    intro below hb
    have hcast : ((4 * m - below : Nat) : ℚ) = 4 * m - below := by
      rw [Nat.cast_sub (by omega)]
      push_cast
      ring
    rw [Nat.cast_mul, hcast, mul_div_assoc, two_zpow_sub_two]
    ring
  show (((4 * m - (if m = 2 ^ 52 ∧ -1074 < q then 1 else 2)) * 2 ^ (q - 2).toNat : Nat) : ℚ) /
    ((2 ^ (2 - q).toNat : Nat) : ℚ) = _
  unfold gap
  split
  · rw [key 1 (by omega)]
    norm_num
  · rw [key 2 (by omega)]
    norm_num

theorem around_high (m : Nat) (q : Int) :
    ((Interval.around m q).high / (Interval.around m q).scale : ℚ) = (m + 1 / 2) * 2 ^ q := by
  show (((4 * m + 2) * 2 ^ (q - 2).toNat : Nat) : ℚ) / ((2 ^ (2 - q).toNat : Nat) : ℚ) = _
  rw [Nat.cast_mul, mul_div_assoc, two_zpow_sub_two]
  push_cast
  ring

/-- The interval holds the decimals that are read as the double. -/
theorem rounds_of_holds {m : Nat} {q k : Int} {c : Nat} (hm : 0 < m)
    (h : (Interval.around m q).holds k c = true) : RoundsTo m q (c * 10 ^ k) := by
  have hS := around_scale_pos m q
  have hclosed : (Interval.around m q).closed = decide (m % 2 = 0) := rfl
  unfold Interval.holds at h
  dsimp only at h
  rw [hclosed] at h
  by_cases heven : m % 2 = 0
  · rw [if_pos (by simpa using heven), decide_eq_true_eq, scaled_le_iff _ _ _ hS,
      scaled_ge_iff _ _ _ hS, around_low q hm, around_high] at h
    exact ⟨h.1, h.2, fun hodd => absurd heven (by omega)⟩
  · rw [if_neg (by simpa using heven), decide_eq_true_eq, scaled_lt_iff _ _ _ hS,
      scaled_gt_iff _ _ _ hS, around_low q hm, around_high] at h
    exact ⟨h.1.le, h.2.le, fun _ => h⟩

theorem holds_of_onGrid {i : Interval} {tie : Tie} {k : Int} {c : Nat}
    (h : i.onGrid? tie k = some c) : i.holds k c = true := by
  unfold Interval.onGrid? at h
  dsimp only at h
  split at h
  · rename_i h1 h2
    cases h
    split
    · exact h2
    · exact h1
  · rename_i h1 h2
    cases h
    exact h1
  · rename_i h1 h2
    cases h
    exact h2
  · cases h

theorem holds_of_firstGrid {i : Interval} {tie : Tie} {fuel : Nat} {k : Int} {d : Scaled}
    (h : i.firstGrid? tie fuel k = some d) : i.holds d.exponent d.digits = true := by
  induction fuel generalizing k with
  | zero => cases h
  | succ fuel ih =>
    unfold Interval.firstGrid? at h
    split at h
    · rename_i c hc
      cases h
      exact holds_of_onGrid hc
    · exact ih h

theorem exactDecimal_value (m : Nat) (q : Int) : (exactDecimal m q).value = m * 2 ^ q := by
  unfold exactDecimal Scaled.value
  split
  · rename_i hq
    have : ((q.toNat : Nat) : Int) = q := Int.toNat_of_nonneg hq
    rw [zpow_zero, mul_one, Nat.cast_mul, Nat.cast_pow, ← zpow_natCast, this]
    norm_num
  · rename_i hq
    have h1 : (((-q).toNat : Nat) : Int) = -q := Int.toNat_of_nonneg (by omega)
    have h2 : (10 : ℚ) ^ q = 2 ^ q * 5 ^ q := by
      rw [← mul_zpow]
      norm_num
    have h3 : ((5 ^ (-q).toNat : Nat) : ℚ) * 5 ^ q = 1 := by
      rw [Nat.cast_pow, ← zpow_natCast, h1]
      push_cast
      rw [← zpow_add₀ (by norm_num), neg_add_cancel, zpow_zero]
    dsimp only
    rw [Nat.cast_mul, h2]
    calc (m : ℚ) * ((5 ^ (-q).toNat : Nat) : ℚ) * (2 ^ q * 5 ^ q)
        = m * 2 ^ q * (((5 ^ (-q).toNat : Nat) : ℚ) * 5 ^ q) := by ring
      _ = m * 2 ^ q := by rw [h3, mul_one]

/-- The shortest decimal of a double is read as the double. -/
theorem shortest_rounds (tie : Tie) {m : Nat} (q : Int) (hm : 0 < m) :
    RoundsTo m q (shortest tie m q).value := by
  unfold shortest
  cases h : (Interval.around m q).firstGrid? tie 24 (topExponent m q) with
  | none =>
    rw [Option.getD_none, exactDecimal_value]
    exact RoundsTo.self m q
  | some d => exact rounds_of_holds hm (holds_of_firstGrid h)

/-! ### Reading -/

theorem two_pow_thousand_le : 2 ^ 1000 ≤ 10 ^ 302 := by decide +kernel

theorem two_pow_le_ten_pow (n : Nat) : 2 ^ n ≤ 10 ^ (n * 302 / 1000 + 1) := by
  have h : (2 ^ n) ^ 1000 ≤ (10 ^ (n * 302 / 1000 + 1)) ^ 1000 :=
    calc (2 ^ n) ^ 1000 = (2 ^ 1000) ^ n := by rw [← pow_mul, ← pow_mul, mul_comm]
      _ ≤ (10 ^ 302) ^ n := Nat.pow_le_pow_left two_pow_thousand_le n
      _ = 10 ^ (302 * n) := by rw [← pow_mul]
      _ ≤ 10 ^ ((n * 302 / 1000 + 1) * 1000) := Nat.pow_le_pow_right (by norm_num) (by omega)
      _ = (10 ^ (n * 302 / 1000 + 1)) ^ 1000 := by rw [pow_mul]
  exact (pow_le_pow_iff_left₀ (Nat.zero_le _) (Nat.zero_le _) (by norm_num)).mp h

/-- The least double is far above the powers of ten that are cut off. -/
theorem ten_zpow_neg_lt : (10 : ℚ) ^ (-400 : Int) < 1 / 2 * 2 ^ (-1074 : Int) := by
  have h : ((2 * 2 ^ 1074 : Nat) : ℚ) < ((10 ^ 400 : Nat) : ℚ) :=
    Nat.cast_lt.mpr (by decide +kernel)
  rw [Nat.cast_mul, Nat.cast_pow, Nat.cast_pow, Nat.cast_ofNat, Nat.cast_ofNat] at h
  rw [zpow_neg, zpow_neg, one_div, ← mul_inv]
  exact inv_strictAnti₀ (by positivity) h

/-- The largest double is far below them. -/
theorem lt_ten_zpow : ((2 : ℚ) ^ 53 + 1 / 2) * 2 ^ (971 : Int) < 10 ^ (400 : Int) := by
  have h : ((2 ^ 54 * 2 ^ 971 : Nat) : ℚ) < ((10 ^ 400 : Nat) : ℚ) :=
    Nat.cast_lt.mpr (by decide +kernel)
  rw [Nat.cast_mul, Nat.cast_pow, Nat.cast_pow, Nat.cast_pow, Nat.cast_ofNat, Nat.cast_ofNat] at h
  refine lt_of_le_of_lt ?_ h
  exact mul_le_mul_of_nonneg_right (by norm_num) (two_zpow_pos _).le

theorem RoundsTo.lower {m : Nat} {q : Int} {r : ℚ} (hc : Canonical m q) (hm : 0 < m)
    (h : RoundsTo m q r) : (10 : ℚ) ^ (-400 : Int) < r := by
  have h1 := gap_le m q
  have h2 : (2 : ℚ) ^ (-1074 : Int) ≤ 2 ^ q := two_zpow_le hc.low
  have h3 : (1 : ℚ) ≤ m := by exact_mod_cast hm
  have h4 := h.low
  have h5 := ten_zpow_neg_lt
  have h6 := two_zpow_pos q
  nlinarith

theorem RoundsTo.upper {m : Nat} {q : Int} {r : ℚ} (hc : Canonical m q) (h : RoundsTo m q r) :
    r < 10 ^ (400 : Int) := by
  have h1 : (2 : ℚ) ^ q ≤ 2 ^ (971 : Int) := two_zpow_le hc.high
  have h2 : (m : ℚ) ≤ 2 ^ 53 := by exact_mod_cast hc.lt.le
  have h3 := h.high
  have h4 := lt_ten_zpow
  have h5 := two_zpow_pos q
  have h6 : ((m : ℚ) + 1 / 2) * 2 ^ q ≤ (2 ^ 53 + 1 / 2) * 2 ^ (971 : Int) :=
    mul_le_mul (by linarith) h1 h5.le (by positivity)
  exact (h3.trans h6).trans_lt h4

/-- A decimal in the interval of a double is read as that double. -/
theorem ofDecimal_of_rounds (negative : Bool) {m : Nat} {q : Int} (hc : Canonical m q)
    (hm : 0 < m) {digits : Nat} {exponent : Int} (h : RoundsTo m q (digits * 10 ^ exponent)) :
    ofDecimal negative digits exponent = ofMagnitudeBits negative (magnitude m q) := by
  have hpos := h.pos hm
  have hten : (0 : ℚ) < 10 ^ exponent := zpow_pos (by norm_num) _
  have hd : 0 < digits := by
    rcases Nat.eq_zero_or_pos digits with h0 | h0
    · rw [h0] at hpos
      simp at hpos
    · exact h0
  -- neither cut is made, since the number is near to a double
  have hsmall : ¬ (((digits.log2 : Nat) : Int) + 1) * 302 / 1000 + exponent < -400 := by
    intro hlt
    have h1 : (digits : ℚ) ≤ 10 ^ ((digits.log2 + 1) * 302 / 1000 + 1) := by
      exact_mod_cast (Nat.lt_log2_self (n := digits)).le.trans (two_pow_le_ten_pow _)
    have h2 : (10 : ℚ) ^ ((digits.log2 + 1) * 302 / 1000 + 1) * 10 ^ exponent ≤
        10 ^ (-400 : Int) := by
      rw [← zpow_natCast, ← zpow_add₀ (by norm_num)]
      refine zpow_le_zpow_right₀ (by norm_num) ?_
      push_cast
      omega
    have h3 := h.lower hc hm
    have h4 := mul_le_mul_of_nonneg_right h1 hten.le
    linarith
  have hlarge : ¬ 400 < exponent := by
    intro hlt
    have h1 : (10 : ℚ) ^ (400 : Int) ≤ 10 ^ exponent :=
      zpow_le_zpow_right₀ (by norm_num) hlt.le
    have h2 : (1 : ℚ) ≤ digits := by exact_mod_cast hd
    have h3 : (10 : ℚ) ^ exponent ≤ digits * 10 ^ exponent :=
      le_mul_of_one_le_left hten.le h2
    exact absurd (h.upper hc) (not_lt.mpr (h1.trans h3))
  unfold ofDecimal
  dsimp only
  rw [if_neg (by rintro (h0 | h0); exacts [hd.ne' h0, hsmall h0]), if_neg hlarge]
  refine nearest_of_rounds negative hc hm (by positivity) ?_
  have hvalue : ((digits * 10 ^ exponent.toNat : Nat) : ℚ) / ((10 ^ (-exponent).toNat : Nat) : ℚ) =
      digits * 10 ^ exponent := by
    rw [zpow_eq_div 10 exponent]
    push_cast
    ring
  rw [hvalue]
  exact h

end LuaConfig.Decimal
