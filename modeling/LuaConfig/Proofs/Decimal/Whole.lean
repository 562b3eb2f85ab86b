/-
The text of doubles that are integers.

The grid of the integers holds such a double itself, so that the search for the shortest decimal
ends there at the latest and the plain text has no point (`exponent_shortest`).  What the text of
the double nearest to `n` shows is then an integer, `shown n`.  It need not be `n`, and not even the
double, but it is rounded to the same double (`ofInt_shown`); up to `2 ^ 53` it is `n`
(`shown_of_exact`).
-/
import LuaConfig.Proofs.Decimal.Integer
import LuaConfig.Proofs.Decimal.Plain

namespace LuaConfig.Decimal

/-! ### Grids -/

section Grid

variable {m value : Nat} {q : Int}

theorem around_value (hvalue : (value : ℚ) = m * 2 ^ q) :
    (Interval.around m q).value = value * (Interval.around m q).scale := by
  have hscale : (0 : ℚ) < ((2 ^ (2 - q).toNat : Nat) : ℚ) := by positivity
  have hquot := two_zpow_sub_two q
  rw [div_eq_iff hscale.ne'] at hquot
  show 4 * m * 2 ^ (q - 2).toNat = value * 2 ^ (2 - q).toNat
  have hcast : ((4 * m * 2 ^ (q - 2).toNat : Nat) : ℚ) =
      ((value * 2 ^ (2 - q).toNat : Nat) : ℚ) := by
    rw [Nat.cast_mul, hquot, Nat.cast_mul value, hvalue]
    push_cast
    ring
  exact_mod_cast hcast

/-- An integer lies in the interval of its double. -/
theorem holds_value (hm : 0 < m) (hvalue : (value : ℚ) = m * 2 ^ q) :
    (Interval.around m q).holds 0 value = true := by
  have hunit : 0 < 2 ^ (q - 2).toNat := by positivity
  have hbelow : (Interval.around m q).low < (Interval.around m q).value := by
    refine Nat.mul_lt_mul_of_pos_right ?_ hunit
    split <;> omega
  have habove : (Interval.around m q).value < (Interval.around m q).high :=
    Nat.mul_lt_mul_of_pos_right (by omega) hunit
  rw [around_value hvalue] at hbelow habove
  unfold Interval.holds
  simp only [Int.toNat_zero, neg_zero, pow_zero, mul_one]
  split
  · exact decide_eq_true ⟨hbelow.le, habove.le⟩
  · exact decide_eq_true ⟨hbelow, habove⟩

theorem onGrid_zero (hm : 0 < m) (hvalue : (value : ℚ) = m * 2 ^ q) (tie : Tie) :
    ∃ c, (Interval.around m q).onGrid? tie 0 = some c := by
  have hfloor : (Interval.around m q).value * 10 ^ (-(0 : Int)).toNat /
      ((Interval.around m q).scale * 10 ^ (0 : Int).toNat) = value := by
    rw [around_value hvalue]
    simp only [Int.toNat_zero, neg_zero, pow_zero, mul_one]
    exact Nat.mul_div_cancel _ (around_scale_pos m q)
  unfold Interval.onGrid?
  simp only [hfloor, holds_value hm hvalue]
  cases (Interval.around m q).holds 0 (value + 1) <;> exact ⟨_, rfl⟩

/-- A search that starts at or above the grid of the integers does not go below it, if that grid
has a point. -/
theorem exponent_firstGrid {i : Interval} {tie : Tie} {c : Nat} (h : i.onGrid? tie 0 = some c)
    {fuel k : Nat} (hk : k < fuel) :
    ∃ d, i.firstGrid? tie fuel k = some d ∧ 0 ≤ d.exponent := by
  induction fuel generalizing k with
  | zero => omega
  | succ fuel ih =>
    unfold Interval.firstGrid?
    cases hgrid : i.onGrid? tie k with
    | some c => exact ⟨⟨c, k⟩, rfl, by simp⟩
    | none =>
      obtain ⟨j, rfl⟩ : ∃ j, k = j + 1 := by
        refine ⟨k - 1, ?_⟩
        have : k ≠ 0 := by
          rintro rfl
          rw [Nat.cast_zero, h] at hgrid
          cases hgrid
        omega
      have hprev : (((j + 1 : Nat) : Int) - 1) = (j : Int) := by push_cast; ring
      simp only [hprev]
      exact ih (by omega)

/-- The search starts above the grid of the integers, and near enough to reach it. -/
theorem topExponent_range (hm : 0 < m) (hvalue : (value : ℚ) = m * 2 ^ q)
    (hle : value ≤ 2 ^ 63) :
    0 ≤ topExponent m q ∧ topExponent m q < 24 := by
  have hpos : (1 : ℚ) ≤ value := by
    have h0 : (0 : ℚ) < value := by
      rw [hvalue]
      have := two_zpow_pos q
      positivity
    have : 0 < value := by exact_mod_cast h0
    exact_mod_cast this
  have hlow : ((2 ^ m.log2 : Nat) : ℚ) ≤ m := by exact_mod_cast Nat.log2_self_le hm.ne'
  have hhigh : (m : ℚ) < ((2 ^ (m.log2 + 1) : Nat) : ℚ) := by
    exact_mod_cast Nat.lt_log2_self (n := m)
  have hq := two_zpow_pos q
  -- the value lies between `1` and `2 ^ 63`
  have hsmall : (2 : ℚ) ^ ((m.log2 : Int) + q) ≤ 2 ^ (63 : Int) := by
    rw [zpow_add₀ (by norm_num), zpow_natCast]
    calc (2 : ℚ) ^ m.log2 * 2 ^ q ≤ m * 2 ^ q := by
          refine mul_le_mul_of_nonneg_right ?_ hq.le
          exact_mod_cast hlow
      _ = value := hvalue.symm
      _ ≤ 2 ^ (63 : Int) := by exact_mod_cast hle
  have hlarge : (2 : ℚ) ^ (0 : Int) < 2 ^ (((m.log2 + 1 : Nat) : Int) + q) := by
    rw [zpow_add₀ (by norm_num), zpow_natCast, zpow_zero]
    calc (1 : ℚ) ≤ m * 2 ^ q := hvalue ▸ hpos
      _ < 2 ^ (m.log2 + 1) * 2 ^ q := by
          refine mul_lt_mul_of_pos_right ?_ hq
          exact_mod_cast hhigh
  have h1 := (zpow_le_zpow_iff_right₀ (by norm_num)).mp hsmall
  have h2 := (zpow_lt_zpow_iff_right₀ (by norm_num)).mp hlarge
  push_cast at h2
  unfold topExponent
  omega

/-- The shortest decimal of an integer has no fraction. -/
theorem exponent_shortest (tie : Tie) (hm : 0 < m) (hvalue : (value : ℚ) = m * 2 ^ q)
    (hle : value ≤ 2 ^ 63) :
    0 ≤ (shortest tie m q).exponent := by
  obtain ⟨c, hc⟩ := onGrid_zero hm hvalue tie
  obtain ⟨hlow, hhigh⟩ := topExponent_range hm hvalue hle
  obtain ⟨k, hk⟩ := Int.eq_ofNat_of_zero_le hlow
  have hk24 : k < 24 := by omega
  obtain ⟨d, hd, hexponent⟩ := exponent_firstGrid hc hk24
  rw [shortest, hk, hd]
  exact hexponent

/-- What is rounded to an integer below `2 ^ 63` is below `2 ^ 63` itself. -/
theorem RoundsTo.lt_limit {r : ℚ} (hm : 0 < m) (hvalue : (value : ℚ) = m * 2 ^ q)
    (hlt : value < 2 ^ 63) (h : RoundsTo m q r) : r < 2 ^ 63 := by
  have hq := two_zpow_pos q
  have hm1 : (1 : ℚ) ≤ m := by exact_mod_cast hm
  have hbelow : (m : ℚ) * 2 ^ q < 2 ^ (63 : Int) := by
    rw [← hvalue]
    exact_mod_cast hlt
  have hq63 : q < 63 := by
    have hself : (2 : ℚ) ^ q ≤ m * 2 ^ q := le_mul_of_one_le_left hq.le hm1
    exact (zpow_lt_zpow_iff_right₀ (by norm_num)).mp (hself.trans_lt hbelow)
  -- `2 ^ 63` is a multiple of the unit, so there is room for half a unit below it
  obtain ⟨p, hp⟩ : ∃ p : Nat, (63 : Int) = q + p := ⟨(63 - q).toNat, by omega⟩
  have hlimit : (2 : ℚ) ^ (63 : Int) = ((2 ^ p : Nat) : ℚ) * 2 ^ q := by
    rw [hp, two_zpow_add, mul_comm]
    push_cast
    rfl
  rw [hlimit] at hbelow
  have hmp : m + 1 ≤ 2 ^ p := by
    have := lt_of_mul_lt_mul_right hbelow hq.le
    exact_mod_cast this
  have hmpq : (m : ℚ) + 1 ≤ ((2 ^ p : Nat) : ℚ) := by exact_mod_cast hmp
  calc r ≤ (m + 1 / 2) * 2 ^ q := h.high
    _ < ((2 ^ p : Nat) : ℚ) * 2 ^ q := mul_lt_mul_of_pos_right (by linarith) hq
    _ = 2 ^ 63 := by
      rw [← hlimit]
      norm_cast

end Grid

/-! ### Digits -/

theorem toDigits_mul_ten_pow {n : Nat} (hn : 0 < n) (e : Nat) :
    Nat.toDigits 10 (n * 10 ^ e) = Nat.toDigits 10 n ++ List.replicate e '0' := by
  induction e with
  | zero => simp
  | succ e ih =>
    have hpos : 0 < n * 10 ^ e := by positivity
    have hstep := Nat.toDigits_append_toDigits (b := 10) (d := 0) (by decide) hpos (by decide)
    rw [Nat.toDigits_zero] at hstep
    calc Nat.toDigits 10 (n * 10 ^ (e + 1)) = Nat.toDigits 10 (10 * (n * 10 ^ e) + 0) := by
          congr 1
          ring
      _ = Nat.toDigits 10 (n * 10 ^ e) ++ ['0'] := hstep.symm
      _ = Nat.toDigits 10 n ++ List.replicate (e + 1) '0' := by
          rw [ih, List.append_assoc, List.replicate_succ']

/-- A decimal without fraction is written as the integer that it is. -/
theorem positional_of_nonneg {d : Scaled} (hdigits : 0 < d.digits) (he : 0 ≤ d.exponent) :
    d.positional = Nat.repr (d.digits * 10 ^ d.exponent.toNat) := by
  apply String.toList_inj.mp
  unfold Scaled.positional
  rw [if_pos he, Nat.toList_repr, toDigits_mul_ten_pow hdigits]
  simp [zeros, Nat.toList_repr]

/-! ### The integer that is shown -/

/-- The integer that the plain text of `m · 2 ^ q` shows, if it shows one. -/
def shownMagnitude (m : Nat) (q : Int) : Nat :=
  let d := shortest .up m q
  if m = 0 then 0 else d.digits * 10 ^ d.exponent.toNat

/-- The integer that the plain text of the double nearest to `n` shows. -/
def shown (n : Int) : Int :=
  match Binary64.ofFloat (ofInt n) with
  | .finite negative m q => if negative then -(shownMagnitude m q : Int) else shownMagnitude m q
  | _ => 0

/-- The text of an integer shows an integer that is read as the same double. -/
theorem shownMagnitude_spec {m value : Nat} {q : Int} (hm : 0 < m)
    (hvalue : (value : ℚ) = m * 2 ^ q) (hle : value ≤ 2 ^ 63) :
    magnitudeText m q = Nat.repr (shownMagnitude m q) ∧ RoundsTo m q (shownMagnitude m q) ∧
      0 < shownMagnitude m q := by
  have he := exponent_shortest .up hm hvalue hle
  have hround := shortest_rounds .up q hm
  rw [value_of_nonneg he] at hround
  have hpos : 0 < (shortest .up m q).digits * 10 ^ (shortest .up m q).exponent.toNat := by
    have := hround.pos hm
    exact_mod_cast this
  have hdigits : 0 < (shortest .up m q).digits := Nat.pos_of_mul_pos_right hpos
  rw [magnitudeText, if_neg hm.ne', shownMagnitude, if_neg hm.ne']
  exact ⟨positional_of_nonneg hdigits he, hround, hpos⟩

/-- The double nearest to an integer, and the integer that its text shows. -/
structure Shows (n : Int) (m : Nat) (q : Int) : Prop where
  canonical : Canonical m q
  pos : 0 < m
  ofFloat_eq : Binary64.ofFloat (ofInt n) = .finite (n < 0) m q
  rounds : RoundsTo m q n.natAbs
  rounds_shown : RoundsTo m q (shown n).natAbs
  neg_iff : shown n < 0 ↔ n < 0
  text_eq : magnitudeText m q = Nat.repr (shown n).natAbs
  whole : ∃ value : Nat, (value : ℚ) = m * 2 ^ q ∧ value ≤ 2 ^ 63 ∧
    (n.natAbs ≤ 2 ^ 53 → value = n.natAbs)

theorem exists_shows {n : Int} (h0 : n ≠ 0) (hn : n.natAbs ≤ 2 ^ 63) : ∃ m q, Shows n m q := by
  obtain ⟨m, q, value, hc, hm, hround, hvalue, hle, -, hexact⟩ :=
    exists_rounds (Int.natAbs_pos.mpr h0) hn
  have hparts : Binary64.ofFloat (ofInt n) = .finite (n < 0) m q := by
    rw [ofInt_of_rounds hc hm hround, ofFloat_ofMagnitudeBits _ hc]
  obtain ⟨htext, hback, hpos⟩ := shownMagnitude_spec hm hvalue hle
  have hshown : shown n = if n < 0 then -(shownMagnitude m q : Int) else shownMagnitude m q := by
    simp only [shown, hparts, decide_eq_true_eq]
  have habs : (shown n).natAbs = shownMagnitude m q := by
    rw [hshown]
    split <;> simp
  refine ⟨m, q, hc, hm, hparts, hround, habs ▸ hback, ?_, habs ▸ htext, value, hvalue, hle,
    hexact⟩
  rw [hshown]
  split <;> omega

/-- Only the text of `2 ^ 63` shows an integer that is as large. -/
theorem Shows.value_of_large {n : Int} {m : Nat} {q : Int} (h : Shows n m q)
    (hlarge : 2 ^ 63 ≤ (shown n).natAbs) : ((2 ^ 63 : Nat) : ℚ) = m * 2 ^ q := by
  obtain ⟨value, hvalue, hle, -⟩ := h.whole
  have hlimit : value = 2 ^ 63 := by
    refine le_antisymm hle (not_lt.mp fun hlt => ?_)
    have hshown := h.rounds_shown.lt_limit h.pos hvalue hlt
    exact absurd hlarge (not_le.mpr (by exact_mod_cast hshown))
  exact hlimit ▸ hvalue

theorem shown_zero : shown 0 = 0 := by decide

theorem toString_ne_empty (n : Int) : toString n ≠ "" := by
  cases n with
  | ofNat n => exact Nat.repr_ne_empty
  | negSucc n =>
    show "-" ++ Nat.repr (n + 1) ≠ ""
    simp

theorem toString_eq_signed (n : Int) : toString n = signed (n < 0) (Nat.repr n.natAbs) := by
  cases n with
  | ofNat n => rfl
  | negSucc n =>
    rw [signed, if_pos (decide_eq_true (Int.negSucc_lt_zero n))]
    rfl

/-- The plain text of the double nearest to an integer. -/
theorem plain_ofInt {n : Int} (hn : n.natAbs ≤ 2 ^ 63) : plain (ofInt n) = toString (shown n) := by
  by_cases h0 : n = 0
  · rw [h0, shown_zero]
    decide
  · obtain ⟨m, q, h⟩ := exists_shows h0 hn
    rw [plain_finite h.ofFloat_eq, h.text_eq, toString_eq_signed]
    simp only [h.neg_iff]

/-- Digits that are not needed are written as zeros, though the double has others there. -/
example : shown (2 ^ 60) = 1152921504606847000 := by decide

/-- What is shown is rounded to the same double. -/
theorem ofInt_shown {n : Int} (hn : n.natAbs ≤ 2 ^ 63) : ofInt (shown n) = ofInt n := by
  by_cases h0 : n = 0
  · rw [h0, shown_zero]
  · obtain ⟨m, q, h⟩ := exists_shows h0 hn
    rw [ofInt_of_rounds h.canonical h.pos h.rounds_shown,
      ofInt_of_rounds h.canonical h.pos h.rounds]
    simp only [h.neg_iff]

/-- Up to `2 ^ 53` an integer is shown as itself. -/
theorem shown_of_exact {n : Int} (hn : n.natAbs ≤ 2 ^ 53) : shown n = n := by
  by_cases h0 : n = 0
  · rw [h0, shown_zero]
  by_cases hlimit : n.natAbs = 2 ^ 53
  · -- at the limit two integers share a double
    rcases Int.natAbs_eq_iff.mp hlimit with rfl | rfl <;> decide
  · obtain ⟨m, q, h⟩ := exists_shows h0 (by omega)
    obtain ⟨value, hvalue, -, hexact⟩ := h.whole
    have hsmall : (shown n).natAbs ≤ 2 * value := by
      have hhigh := h.rounds_shown.high
      have hm : (1 : ℚ) ≤ m := by exact_mod_cast h.pos
      have hq := two_zpow_pos q
      have hdouble : ((shown n).natAbs : ℚ) ≤ 2 * value := by nlinarith
      exact_mod_cast hdouble
    rw [hexact hn] at hsmall
    exact eq_of_ofInt_eq (by omega) (by omega) (ofInt_shown (by omega))

end LuaConfig.Decimal
