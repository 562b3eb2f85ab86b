/-
The double nearest to a quotient.

`RoundsTo m q r` says that the number `r` lies in the interval of those that are read as the double
`m · 2 ^ q`.  `nearestBits_of_rounds` is the main statement: the quotients in that interval, and not
only the double itself, have the double's bits.  The proof finds the unit in which `nearestBits`
measures a quotient: it is that of the double (`unitExponent_of_rounds`), or half of it where the
quotient lies below a power of two (`nearestBits_below_power`).
-/
import LuaConfig.Proofs.Decimal.Bits

namespace LuaConfig.Decimal

/-! ### Powers with integer exponents -/

theorem zpow_eq_div (b : ℚ) (q : Int) : b ^ q = b ^ q.toNat / b ^ (-q).toNat := by
  rcases Int.le_total 0 q with h | h
  · have h1 : (-q).toNat = 0 := by omega
    have h2 : ((q.toNat : Nat) : Int) = q := Int.toNat_of_nonneg h
    rw [h1, pow_zero, div_one, ← zpow_natCast, h2]
  · have h1 : q.toNat = 0 := by omega
    have h2 : (((-q).toNat : Nat) : Int) = -q := Int.toNat_of_nonneg (by omega)
    rw [h1, pow_zero, one_div, ← zpow_natCast, h2, zpow_neg, inv_inv]

theorem two_zpow_pos (q : Int) : (0 : ℚ) < 2 ^ q := zpow_pos (by norm_num) q

theorem two_zpow_add (q : Int) (n : Nat) : (2 : ℚ) ^ (q + n) = 2 ^ q * 2 ^ n := by
  rw [zpow_add₀ (by norm_num), zpow_natCast]

theorem two_zpow_le {p q : Int} (h : p ≤ q) : (2 : ℚ) ^ p ≤ 2 ^ q :=
  zpow_le_zpow_right₀ (by norm_num) h

/-- The quotient in units of `2 ^ q`. -/
theorem scaled_eq (num den : Nat) (q : Int) :
    ((num * 2 ^ (-q).toNat : Nat) : ℚ) / ((den * 2 ^ q.toNat : Nat) : ℚ) =
      num / den / 2 ^ q := by
  rw [zpow_eq_div 2 q]
  push_cast
  have h1 : (2 : ℚ) ^ (-q).toNat ≠ 0 := by positivity
  have h2 : (2 : ℚ) ^ q.toNat ≠ 0 := by positivity
  field_simp

/-! ### Rounding a quotient -/

/-- A rounded quotient is the nearest one, and even where two are equally near. -/
theorem roundDiv_spec (num : Nat) {den : Nat} (hd : 0 < den) :
    num / den ≤ roundDiv num den ∧ roundDiv num den ≤ num / den + 1 ∧
      2 * roundDiv num den * den ≤ 2 * num + den ∧ 2 * num ≤ 2 * roundDiv num den * den + den ∧
      (roundDiv num den % 2 = 1 →
        2 * roundDiv num den * den < 2 * num + den ∧
          2 * num < 2 * roundDiv num den * den + den) := by
  obtain ⟨d, hdef⟩ : ∃ d, num / den = d := ⟨_, rfl⟩
  obtain ⟨r, hr⟩ : ∃ r, num % den = r := ⟨_, rfl⟩
  have hrd : r < den := hr ▸ Nat.mod_lt _ hd
  have hnum : num = den * d + r := by rw [← hdef, ← hr, Nat.div_add_mod]
  unfold roundDiv
  rw [hdef, hr]
  dsimp only
  -- what remains is less than a half, more than a half, or a half
  split_ifs with h1 h2
  · refine ⟨by omega, by omega, ?_, ?_, fun _ => ⟨?_, ?_⟩⟩ <;> nlinarith
  · refine ⟨by omega, by omega, ?_, ?_, fun _ => ⟨?_, ?_⟩⟩ <;> nlinarith
  · have htie : 2 * r = den := by omega
    rcases Nat.mod_two_eq_zero_or_one d with hpar | hpar
    · rw [hpar]
      refine ⟨by omega, by omega, ?_, ?_, fun hodd => absurd hodd (by omega)⟩ <;> nlinarith
    · rw [hpar]
      refine ⟨by omega, by omega, ?_, ?_, fun hodd => absurd hodd (by omega)⟩ <;> nlinarith

/-- Two integers that are nearest to one quotient are the same: if they were as near as each other,
one of them would be odd. -/
theorem le_of_nearest {num den k k' : Nat} (hd : 0 < den) (low : 2 * k * den ≤ 2 * num + den)
    (odd : k % 2 = 1 → 2 * k * den < 2 * num + den) (high' : 2 * num ≤ 2 * k' * den + den)
    (odd' : k' % 2 = 1 → 2 * num < 2 * k' * den + den) : k ≤ k' := by
  by_contra hlt
  have hge : (k' + 1) * den ≤ k * den := Nat.mul_le_mul_right _ (by omega)
  have hle : k * den ≤ (k' + 1) * den := by linarith
  obtain rfl : k = k' + 1 := Nat.eq_of_mul_eq_mul_right hd (le_antisymm hle hge)
  rcases Nat.mod_two_eq_zero_or_one k' with heven | hodd
  · have hstrict := odd (by omega)
    linarith
  · have hstrict := odd' hodd
    linarith

theorem roundDiv_eq {num den k : Nat} (hd : 0 < den) (low : 2 * k * den ≤ 2 * num + den)
    (high : 2 * num ≤ 2 * k * den + den)
    (odd : k % 2 = 1 → 2 * k * den < 2 * num + den ∧ 2 * num < 2 * k * den + den) :
    roundDiv num den = k := by
  obtain ⟨-, -, low', high', odd'⟩ := roundDiv_spec num hd
  refine le_antisymm ?_ ?_
  · exact le_of_nearest hd low' (fun h => (odd' h).1) high fun h => (odd h).2
  · exact le_of_nearest hd low (fun h => (odd h).1) high' fun h => (odd' h).2

/-! ### The unit of a quotient -/

theorem div_lt_iff_scaled {num den : Nat} (hd : 0 < den) (q : Int) (k : Nat) :
    num * 2 ^ (-q).toNat / (den * 2 ^ q.toNat) < k ↔ (num / den : ℚ) < k * 2 ^ q := by
  have hpos : 0 < den * 2 ^ q.toNat := by positivity
  have hposq : (0 : ℚ) < ((den * 2 ^ q.toNat : Nat) : ℚ) := by exact_mod_cast hpos
  rw [Nat.div_lt_iff_lt_mul hpos, ← div_lt_iff₀ (two_zpow_pos q), ← scaled_eq, div_lt_iff₀ hposq]
  exact_mod_cast Iff.rfl

/-- A quotient lies between the powers of two that the lengths of its terms tell. -/
theorem log2_bounds {num den : Nat} (hn : 0 < num) (hd : 0 < den) :
    (2 : ℚ) ^ ((num.log2 : Int) - den.log2 - 1) < num / den ∧
      (num / den : ℚ) < 2 ^ ((num.log2 : Int) - den.log2 + 1) := by
  have hdq : (0 : ℚ) < den := by exact_mod_cast hd
  have n1 : (2 : ℚ) ^ num.log2 ≤ num := by exact_mod_cast Nat.log2_self_le hn.ne'
  have n2 : (num : ℚ) < 2 ^ (num.log2 + 1) := by exact_mod_cast Nat.lt_log2_self
  have d1 : (2 : ℚ) ^ den.log2 ≤ den := by exact_mod_cast Nat.log2_self_le hd.ne'
  have d2 : (den : ℚ) < 2 ^ (den.log2 + 1) := by exact_mod_cast Nat.lt_log2_self
  have hp : (0 : ℚ) < 2 ^ den.log2 := by positivity
  -- both sides are multiplied by the denominator
  constructor
  · rw [lt_div_iff₀ hdq]
    calc (2 : ℚ) ^ ((num.log2 : Int) - den.log2 - 1) * den
        < 2 ^ ((num.log2 : Int) - den.log2 - 1) * 2 ^ (den.log2 + 1) := by
          exact mul_lt_mul_of_pos_left d2 (two_zpow_pos _)
      _ = 2 ^ num.log2 := by
          rw [← zpow_natCast, ← zpow_natCast, ← zpow_add₀ (by norm_num)]
          congr 1
          push_cast
          ring
      _ ≤ num := n1
  · rw [div_lt_iff₀ hdq]
    calc (num : ℚ) < 2 ^ (num.log2 + 1) := n2
      _ = 2 ^ ((num.log2 : Int) - den.log2 + 1) * 2 ^ den.log2 := by
          rw [← zpow_natCast, ← zpow_natCast, ← zpow_add₀ (by norm_num)]
          congr 1
          push_cast
          ring
      _ ≤ 2 ^ ((num.log2 : Int) - den.log2 + 1) * den := by
          exact mul_le_mul_of_nonneg_left d1 (two_zpow_pos _).le

theorem unitExponent_spec {num den : Nat} (hn : 0 < num) (hd : 0 < den) :
    -1074 ≤ unitExponent num den ∧ (num / den : ℚ) < 2 ^ 53 * 2 ^ unitExponent num den ∧
      (unitExponent num den = -1074 ∨ (2 : ℚ) ^ 52 * 2 ^ unitExponent num den ≤ num / den) := by
  obtain ⟨hlow, hhigh⟩ := log2_bounds hn hd
  set g : Int := (num.log2 : Int) - den.log2 - 53 with hg
  have hlow' : (2 : ℚ) ^ 52 * 2 ^ g < num / den := by
    rw [mul_comm, ← two_zpow_add]
    convert hlow using 2
    push_cast
    omega
  have hhigh' : (num / den : ℚ) < 2 ^ 54 * 2 ^ g := by
    rw [mul_comm, ← two_zpow_add]
    convert hhigh using 2
    push_cast
    omega
  -- the better of the two guesses
  obtain ⟨e, hedef⟩ : ∃ e, (if num * 2 ^ (-g).toNat / (den * 2 ^ g.toNat) < 2 ^ 53 then g
    else g + 1) = e := ⟨_, rfl⟩
  have he : (2 : ℚ) ^ 52 * 2 ^ e ≤ num / den ∧ (num / den : ℚ) < 2 ^ 53 * 2 ^ e := by
    by_cases h : num * 2 ^ (-g).toNat / (den * 2 ^ g.toNat) < 2 ^ 53
    · rw [if_pos h] at hedef
      have h' := (div_lt_iff_scaled hd g (2 ^ 53)).mp h
      push_cast at h'
      exact hedef ▸ ⟨hlow'.le, h'⟩
    · rw [if_neg h] at hedef
      have h' := (div_lt_iff_scaled hd g (2 ^ 53)).not.mp h
      push_cast at h'
      have hstep : (2 : ℚ) ^ (g + 1) = 2 ^ g * 2 := by
        have := two_zpow_add g 1
        simpa using this
      subst hedef
      rw [hstep]
      constructor
      · linarith
      · linarith
  have hunit : unitExponent num den = max (-1074) e := by
    rw [← hedef]
    rfl
  rw [hunit]
  rcases Int.le_total e (-1074) with h | h
  · rw [max_eq_left h]
    refine ⟨le_rfl, ?_, Or.inl rfl⟩
    exact he.2.trans_le (mul_le_mul_of_nonneg_left (two_zpow_le h) (by positivity))
  · rw [max_eq_right h]
    exact ⟨h, he.2, Or.inr he.1⟩

theorem unitExponent_eq {num den : Nat} (hn : 0 < num) (hd : 0 < den) {q : Int} (hq : -1074 ≤ q)
    (high : (num / den : ℚ) < 2 ^ 53 * 2 ^ q)
    (low : q = -1074 ∨ (2 : ℚ) ^ 52 * 2 ^ q ≤ num / den) : unitExponent num den = q := by
  obtain ⟨h1, h2, h3⟩ := unitExponent_spec hn hd
  -- in a larger unit the quotient would be too small, in a smaller one too large
  have compare : ∀ a b : Int, (2 : ℚ) ^ 52 * 2 ^ a ≤ num / den →
      (num / den : ℚ) < 2 ^ 53 * 2 ^ b → a ≤ b := by
    intro a b ha hb
    by_contra hlt
    have hab : (2 : ℚ) ^ (b + 1) ≤ 2 ^ a := two_zpow_le (by omega)
    have hstep : (2 : ℚ) ^ (b + 1) = 2 ^ b * 2 := by simpa using two_zpow_add b 1
    rw [hstep] at hab
    have := two_zpow_pos b
    nlinarith
  have hle : unitExponent num den ≤ q := by
    rcases h3 with h | h
    · omega
    · exact compare _ _ h high
  have hge : q ≤ unitExponent num den := by
    rcases low with h | h
    · omega
    · exact compare _ _ h h2
  omega

/-! ### The interval of a double -/

/-- How far below `m · 2 ^ q` its interval reaches, in units of `2 ^ q`. -/
def gap (m : Nat) (q : Int) : ℚ := if m = 2 ^ 52 ∧ -1074 < q then 1 / 4 else 1 / 2

theorem gap_pos (m : Nat) (q : Int) : 0 < gap m q := by
  unfold gap
  split <;> norm_num

theorem gap_le (m : Nat) (q : Int) : gap m q ≤ 1 / 2 := by
  unfold gap
  split <;> norm_num

/-- The number `r` is read as `m · 2 ^ q`. -/
structure RoundsTo (m : Nat) (q : Int) (r : ℚ) : Prop where
  low : (m - gap m q) * 2 ^ q ≤ r
  high : r ≤ (m + 1 / 2) * 2 ^ q
  odd : m % 2 = 1 → (m - gap m q) * 2 ^ q < r ∧ r < (m + 1 / 2) * 2 ^ q

theorem RoundsTo.self (m : Nat) (q : Int) : RoundsTo m q (m * 2 ^ q) := by
  have h1 := gap_pos m q
  have h2 := two_zpow_pos q
  refine ⟨?_, ?_, fun _ => ⟨?_, ?_⟩⟩ <;> nlinarith

theorem RoundsTo.pos {m : Nat} {q : Int} {r : ℚ} (hm : 0 < m) (h : RoundsTo m q r) : 0 < r := by
  have h1 := gap_le m q
  have h2 := two_zpow_pos q
  have h3 : (1 : ℚ) ≤ m := by exact_mod_cast hm
  have h4 := h.low
  nlinarith

/-- Rounding in a unit of which the number is nearly `k`. -/
theorem roundDiv_scaled {num den k : Nat} {q : Int} (hd : 0 < den)
    (low : ((k : ℚ) - 1 / 2) * 2 ^ q ≤ num / den) (high : (num / den : ℚ) ≤ (k + 1 / 2) * 2 ^ q)
    (odd : k % 2 = 1 →
      ((k : ℚ) - 1 / 2) * 2 ^ q < num / den ∧ (num / den : ℚ) < (k + 1 / 2) * 2 ^ q) :
    roundDiv (num * 2 ^ (-q).toNat) (den * 2 ^ q.toNat) = k := by
  have hpos : 0 < den * 2 ^ q.toNat := by positivity
  have hq := two_zpow_pos q
  have hscaled := scaled_eq num den q
  generalize num * 2 ^ (-q).toNat = a at hscaled ⊢
  generalize den * 2 ^ q.toNat = b at hscaled hpos ⊢
  have hb : (0 : ℚ) < b := by exact_mod_cast hpos
  have hr : (num / den : ℚ) = a / b * 2 ^ q := by
    rw [hscaled]
    field_simp
  rw [hr] at low high odd
  -- the bounds on the quotient, as bounds on its numerator
  have toLow : ∀ {x : ℚ}, x * 2 ^ q ≤ a / b * 2 ^ q → x * b ≤ a := by
    intro x hx
    exact (le_div_iff₀ hb).mp (le_of_mul_le_mul_right hx hq)
  have toHigh : ∀ {x : ℚ}, a / b * 2 ^ q ≤ x * 2 ^ q → (a : ℚ) ≤ x * b := by
    intro x hx
    exact (div_le_iff₀ hb).mp (le_of_mul_le_mul_right hx hq)
  have toLow' : ∀ {x : ℚ}, x * 2 ^ q < a / b * 2 ^ q → x * b < a := by
    intro x hx
    exact (lt_div_iff₀ hb).mp (lt_of_mul_lt_mul_right hx hq.le)
  have toHigh' : ∀ {x : ℚ}, a / b * 2 ^ q < x * 2 ^ q → (a : ℚ) < x * b := by
    intro x hx
    exact (div_lt_iff₀ hb).mp (lt_of_mul_lt_mul_right hx hq.le)
  refine roundDiv_eq hpos ?_ ?_ fun hk => ⟨?_, ?_⟩
  · have := toLow low
    have h : (2 * k * b : ℚ) ≤ 2 * a + b := by linarith
    exact_mod_cast h
  · have := toHigh high
    have h : (2 * a : ℚ) ≤ 2 * k * b + b := by linarith
    exact_mod_cast h
  · have := toLow' (odd hk).1
    have h : (2 * k * b : ℚ) < 2 * a + b := by linarith
    exact_mod_cast h
  · have := toHigh' (odd hk).2
    have h : (2 * a : ℚ) < 2 * k * b + b := by linarith
    exact_mod_cast h

theorem nearestBits_eq {num den k : Nat} {q : Int} (hn : 0 < num)
    (hunit : unitExponent num den = q)
    (hround : roundDiv (num * 2 ^ (-q).toNat) (den * 2 ^ q.toNat) = k) :
    nearestBits num den = min infinityBits ((q + 1074).toNat * 2 ^ 52 + k) := by
  unfold nearestBits
  rw [if_neg hn.ne']
  dsimp only
  rw [hunit, hround]

section Rounds

variable {num den m : Nat} {q : Int}

theorem RoundsTo.num_pos (hm : 0 < m) (h : RoundsTo m q (num / den)) : 0 < num := by
  rcases Nat.eq_zero_or_pos num with rfl | hn
  · have hpos := h.pos hm
    simp at hpos
  · exact hn

/-- A quotient below a power of two is measured in half the unit, and rounded up. -/
theorem nearestBits_below_power (hn : 0 < num) (hd : 0 < den) (hq : -1074 < q)
    (h : RoundsTo (2 ^ 52) q (num / den)) (hlt : (num / den : ℚ) < (2 ^ 52 : Nat) * 2 ^ q) :
    nearestBits num den = min infinityBits (magnitude (2 ^ 52) q) := by
  have hstep : (2 : ℚ) ^ q = 2 ^ (q - 1) * 2 := by simpa using two_zpow_add (q - 1) 1
  have hpos := two_zpow_pos (q - 1)
  have hgap : gap (2 ^ 52) q = 1 / 4 := if_pos ⟨rfl, hq⟩
  have hlow := h.low
  rw [hgap] at hlow
  push_cast at hlow hlt
  rw [hstep] at hlow hlt
  have hunit : unitExponent num den = q - 1 := by
    refine unitExponent_eq hn hd (by omega) ?_ (Or.inr ?_)
    · linarith
    · linarith
  have hround : roundDiv (num * 2 ^ (-(q - 1)).toNat) (den * 2 ^ (q - 1).toNat) = 2 ^ 53 := by
    refine roundDiv_scaled hd ?_ ?_ fun hodd => absurd hodd (by norm_num)
    · push_cast
      linarith
    · push_cast
      linarith
  -- the carry leads to the next exponent
  have hbits : (q - 1 + 1074).toNat * 2 ^ 52 + 2 ^ 53 = magnitude (2 ^ 52) q := by
    unfold magnitude
    omega
  rw [nearestBits_eq hn hunit hround, hbits]

/-- All other quotients in the interval of a double are measured in its unit. -/
theorem unitExponent_of_rounds (hc : Canonical m q) (hn : 0 < num) (hd : 0 < den)
    (h : RoundsTo m q (num / den))
    (habove : m = 2 ^ 52 → -1074 < q → (m : ℚ) * 2 ^ q ≤ num / den) :
    unitExponent num den = q := by
  have hpos := two_zpow_pos q
  have hm : (m : ℚ) + 1 ≤ 2 ^ 53 := by
    have hlt : m + 1 ≤ 2 ^ 53 := hc.lt
    exact_mod_cast hlt
  refine unitExponent_eq hn hd hc.low ?_ ?_
  · have hhigh := h.high
    nlinarith
  · rcases hc.full with hfull | hlow
    · rcases hfull.lt_or_eq with hlt | rfl
      · -- the interval lies above the least number of the unit
        right
        have hm1 : (2 : ℚ) ^ 52 + 1 ≤ m := by exact_mod_cast hlt
        have hlow := h.low
        have hgap := gap_le m q
        nlinarith
      · rcases hc.low.lt_or_eq with hq | hq
        · right
          have hle := habove rfl hq
          exact_mod_cast hle
        · exact Or.inl hq.symm
    · exact Or.inl hlow

theorem roundDiv_of_rounds (hd : 0 < den) (h : RoundsTo m q (num / den)) :
    roundDiv (num * 2 ^ (-q).toNat) (den * 2 ^ q.toNat) = m := by
  have hpos := two_zpow_pos q
  have hgap : (m : ℚ) - 1 / 2 ≤ m - gap m q := by
    have hle := gap_le m q
    linarith
  have hlow : ((m : ℚ) - 1 / 2) * 2 ^ q ≤ (m - gap m q) * 2 ^ q :=
    mul_le_mul_of_nonneg_right hgap hpos.le
  exact roundDiv_scaled hd (hlow.trans h.low) h.high fun hodd =>
    ⟨hlow.trans_lt (h.odd hodd).1, (h.odd hodd).2⟩

/-- The quotients in the interval of a double have its bits. -/
theorem nearestBits_of_rounds (hc : Canonical m q) (hm : 0 < m) (hd : 0 < den)
    (h : RoundsTo m q (num / den)) : nearestBits num den = magnitude m q := by
  have hn := h.num_pos hm
  have hmin : min infinityBits (magnitude m q) = magnitude m q :=
    min_eq_right (magnitude_lt hc).le
  by_cases hbelow : (m = 2 ^ 52 ∧ -1074 < q) ∧ (num / den : ℚ) < m * 2 ^ q
  · obtain ⟨⟨rfl, hq⟩, hlt⟩ := hbelow
    rw [nearestBits_below_power hn hd hq h hlt, hmin]
  · have hunit : unitExponent num den = q :=
      unitExponent_of_rounds hc hn hd h fun hm hq =>
        not_lt.mp fun hlt => hbelow ⟨⟨hm, hq⟩, hlt⟩
    rw [nearestBits_eq hn hunit (roundDiv_of_rounds hd h)]
    exact hmin

end Rounds

theorem nearest_of_rounds {num den m : Nat} {q : Int} (negative : Bool) (hc : Canonical m q)
    (hm : 0 < m) (hd : 0 < den) (h : RoundsTo m q (num / den)) :
    nearest negative num den = ofMagnitudeBits negative (magnitude m q) := by
  rw [nearest, nearestBits_of_rounds hc hm hd h]

end LuaConfig.Decimal
