/-
Integers as doubles.

An integer of 64 bits is rounded to a double that is an integer itself, of magnitude at most
`2 ^ 63` (`exists_rounds`).  Up to `2 ^ 53` it is exact, and below that no two integers are rounded
to one double (`eq_of_ofInt_eq`).
-/
import LuaConfig.Proofs.Decimal.Nearest

namespace LuaConfig.Decimal

/-- An integer below `2 ^ 53` is a double. -/
theorem exists_exact {n : Nat} (hn : 0 < n) (h : n < 2 ^ 53) :
    ∃ m q, Canonical m q ∧ 0 < m ∧ q ≤ 0 ∧ (n : ℚ) = m * 2 ^ q := by
  have hlog : n.log2 < 53 := (Nat.log2_lt hn.ne').mpr h
  have hlow : 2 ^ n.log2 ≤ n := Nat.log2_self_le hn.ne'
  have hhigh : n < 2 ^ (n.log2 + 1) := Nat.lt_log2_self
  -- the integer is shifted until it has 53 digits
  obtain ⟨p, hp⟩ : ∃ p, p + n.log2 = 52 := ⟨52 - n.log2, by omega⟩
  have h52 : 2 ^ n.log2 * 2 ^ p = 2 ^ 52 := by rw [← pow_add, Nat.add_comm, hp]
  have h53 : 2 ^ (n.log2 + 1) * 2 ^ p = 2 ^ 53 := by
    rw [← pow_add]
    congr 1
    omega
  have h2p : 0 < 2 ^ p := by positivity
  refine ⟨n * 2 ^ p, -(p : Int), ⟨?_, by omega, by omega, Or.inl ?_⟩, by positivity, by omega, ?_⟩
  · rw [← h53]
    exact Nat.mul_lt_mul_of_pos_right hhigh h2p
  · rw [← h52]
    exact Nat.mul_le_mul_right _ hlow
  · rw [zpow_neg, zpow_natCast]
    push_cast
    field_simp

theorem rounds_of_roundDiv {n p : Nat} (hlow : 2 ^ 52 * 2 ^ p ≤ n) :
    RoundsTo (roundDiv n (2 ^ p)) p n := by
  have h2p : 0 < 2 ^ p := by positivity
  obtain ⟨hfloor, -, h1, h2, h3⟩ := roundDiv_spec n h2p
  generalize roundDiv n (2 ^ p) = k at hfloor h1 h2 h3 ⊢
  have hq : (0 : ℚ) < 2 ^ p := by positivity
  have h1q : (2 * k * 2 ^ p : ℚ) ≤ 2 * n + 2 ^ p := by exact_mod_cast h1
  have h2q : (2 * n : ℚ) ≤ 2 * k * 2 ^ p + 2 ^ p := by exact_mod_cast h2
  have hlowq : (2 ^ 52 * 2 ^ p : ℚ) ≤ n := by exact_mod_cast hlow
  -- at a power of two the interval reaches less far down, but no quotient lies there
  refine ⟨?_, ?_, fun hodd => ⟨?_, ?_⟩⟩
  · rw [zpow_natCast]
    unfold gap
    split_ifs with hk
    · rw [hk.1]
      push_cast
      linarith
    · linarith
  · rw [zpow_natCast]
    linarith
  · have h3q : (2 * k * 2 ^ p : ℚ) < 2 * n + 2 ^ p := by exact_mod_cast (h3 hodd).1
    have hgap : gap k p = 1 / 2 := by
      unfold gap
      exact if_neg (by rintro ⟨rfl, -⟩; exact absurd hodd (by decide))
    rw [zpow_natCast, hgap]
    linarith
  · have h3q : (2 * n : ℚ) < 2 * k * 2 ^ p + 2 ^ p := by exact_mod_cast (h3 hodd).2
    rw [zpow_natCast]
    linarith

/-- What is rounded up to a power of two is rounded to it in the larger unit. -/
theorem RoundsTo.carry {q : Int} {r : ℚ} (hq : -1074 ≤ q) (h : RoundsTo (2 ^ 53) q r) :
    RoundsTo (2 ^ 52) (q + 1) r := by
  have hstep : (2 : ℚ) ^ (q + 1) = 2 ^ q * 2 := by simpa using two_zpow_add q 1
  have hpos := two_zpow_pos q
  have h1 := h.low
  have h2 := h.high
  have hg1 : gap (2 ^ 53) q = 1 / 2 := if_neg (by rintro ⟨h0, -⟩; exact absurd h0 (by decide))
  have hg2 : gap (2 ^ 52) (q + 1) = 1 / 4 := if_pos ⟨rfl, by omega⟩
  rw [hg1] at h1
  push_cast at h1 h2
  refine ⟨?_, ?_, fun hodd => absurd hodd (by decide)⟩
  · rw [hg2, hstep]
    push_cast
    linarith
  · rw [hstep]
    push_cast
    linarith

section Large

variable {n p : Nat}

/-- The unit in which an integer from `2 ^ 53` on is rounded. -/
theorem exists_unit (hlarge : 2 ^ 53 ≤ n) (h : n ≤ 2 ^ 63) :
    ∃ p, 0 < p ∧ p ≤ 11 ∧ 2 ^ 52 * 2 ^ p ≤ n ∧ n < 2 ^ 53 * 2 ^ p := by
  have hn : n ≠ 0 := by omega
  have hlow : 2 ^ n.log2 ≤ n := Nat.log2_self_le hn
  have hhigh : n < 2 ^ (n.log2 + 1) := Nat.lt_log2_self
  have hlog : 53 ≤ n.log2 := (Nat.le_log2 hn).mpr hlarge
  have hlog' : n.log2 ≤ 63 := (Nat.pow_le_pow_iff_right (by decide)).mp (hlow.trans h)
  obtain ⟨p, hp⟩ : ∃ p, n.log2 = p + 52 := ⟨n.log2 - 52, by omega⟩
  refine ⟨p, by omega, by omega, ?_, ?_⟩
  · rw [← pow_add, Nat.add_comm, ← hp]
    exact hlow
  · rw [← pow_add, show 53 + p = n.log2 + 1 by omega]
    exact hhigh

theorem roundDiv_range (hlow : 2 ^ 52 * 2 ^ p ≤ n) (hhigh : n < 2 ^ 53 * 2 ^ p) :
    2 ^ 52 ≤ roundDiv n (2 ^ p) ∧ roundDiv n (2 ^ p) ≤ 2 ^ 53 := by
  have h2p : 0 < 2 ^ p := by positivity
  obtain ⟨hfloor, hceil, -⟩ := roundDiv_spec n h2p
  have hlow' : 2 ^ 52 ≤ n / 2 ^ p := (Nat.le_div_iff_mul_le h2p).mpr hlow
  have hhigh' : n / 2 ^ p < 2 ^ 53 := (Nat.div_lt_iff_lt_mul h2p).mpr hhigh
  exact ⟨hlow'.trans hfloor, hceil.trans hhigh'⟩

/-- No integer of 64 bits is rounded to one beyond `2 ^ 63`. -/
theorem rounded_le (hp : p ≤ 11) (hlow : 2 ^ 52 * 2 ^ p ≤ n) (hhigh : n < 2 ^ 53 * 2 ^ p)
    (h : n ≤ 2 ^ 63) : roundDiv n (2 ^ p) * 2 ^ p ≤ 2 ^ 63 := by
  rcases Nat.lt_or_ge p 11 with hlt | hge
  · calc roundDiv n (2 ^ p) * 2 ^ p ≤ 2 ^ 53 * 2 ^ 10 :=
          Nat.mul_le_mul (roundDiv_range hlow hhigh).2
            (Nat.pow_le_pow_right (by decide) (Nat.le_of_lt_succ hlt))
      _ = 2 ^ 63 := by norm_num
  · -- in the largest unit there is but one integer of 64 bits
    obtain rfl : p = 11 := by omega
    obtain rfl : n = 2 ^ 63 := by omega
    decide

/-- A rounded quotient is a significand, or else it is carried into the larger unit. -/
theorem RoundsTo.exists_canonical {k : Nat} {r : ℚ} (hp : p ≤ 11) (hlow : 2 ^ 52 ≤ k)
    (hhigh : k ≤ 2 ^ 53) (h : RoundsTo k p r) :
    ∃ m q, Canonical m q ∧ 0 < m ∧ RoundsTo m q r ∧ ((k * 2 ^ p : Nat) : ℚ) = m * 2 ^ q := by
  rcases hhigh.lt_or_eq with hlt | rfl
  · refine ⟨k, p, ⟨hlt, by omega, by omega, Or.inl hlow⟩, by omega, h, ?_⟩
    rw [zpow_natCast]
    push_cast
    ring
  · refine ⟨2 ^ 52, (p : Int) + 1, ⟨by decide, by omega, by omega, Or.inl le_rfl⟩, by decide,
      h.carry (by omega), ?_⟩
    have hstep : (2 : ℚ) ^ ((p : Int) + 1) = 2 ^ (p : Int) * 2 := by
      simpa using two_zpow_add (p : Int) 1
    rw [hstep, zpow_natCast]
    push_cast
    ring

end Large

/-- An integer of 64 bits is rounded to a double that is one as well. -/
theorem exists_rounds {n : Nat} (hn : 0 < n) (h : n ≤ 2 ^ 63) :
    ∃ m q, ∃ value : Nat, Canonical m q ∧ 0 < m ∧ RoundsTo m q n ∧ (value : ℚ) = m * 2 ^ q ∧
      value ≤ 2 ^ 63 ∧ (n < 2 ^ 53 → q ≤ 0) ∧ (n ≤ 2 ^ 53 → value = n) := by
  rcases Nat.lt_or_ge n (2 ^ 53) with hsmall | hlarge
  · obtain ⟨m, q, hc, hm, hq, hvalue⟩ := exists_exact hn hsmall
    exact ⟨m, q, n, hc, hm, hvalue ▸ RoundsTo.self m q, hvalue, h, fun _ => hq,
      fun _ => rfl⟩
  · obtain ⟨p, hp, hp11, hlow, hhigh⟩ := exists_unit hlarge h
    obtain ⟨hfloor, hceil⟩ := roundDiv_range hlow hhigh
    obtain ⟨m, q, hc, hm, hround, hvalue⟩ :=
      (rounds_of_roundDiv hlow).exists_canonical hp11 hfloor hceil
    refine ⟨m, q, _, hc, hm, hround, hvalue, rounded_le hp11 hlow hhigh h,
      fun hsmall => absurd hsmall (by omega), fun hsmall => ?_⟩
    obtain rfl : n = 2 ^ 53 := by omega
    obtain rfl : p = 1 := by
      have hpow : 2 ^ p ≤ 2 ^ 1 := by omega
      have hle : p ≤ 1 := (Nat.pow_le_pow_iff_right (by decide)).mp hpow
      omega
    decide

/-- The integer part of a double that is an integer. -/
theorem truncate_of_value (negative : Bool) {m value : Nat} {q : Int}
    (h : (value : ℚ) = m * 2 ^ q) :
    Binary64.truncate? (.finite negative m q) =
      some (if negative then -(value : Int) else value) := by
  have key : (if 0 ≤ q then m * 2 ^ q.toNat else m / 2 ^ (-q).toNat) = value := by
    rw [zpow_eq_div 2 q] at h
    split_ifs with hq
    · rw [Int.toNat_of_nonpos (by omega : -q ≤ 0), pow_zero, div_one] at h
      exact_mod_cast h.symm
    · rw [Int.toNat_of_nonpos (by omega : q ≤ 0), pow_zero, mul_one_div] at h
      have hpos : 0 < 2 ^ (-q).toNat := by positivity
      have hmul : value * 2 ^ (-q).toNat = m := by
        rw [eq_div_iff (by positivity)] at h
        exact_mod_cast h
      rw [← hmul, Nat.mul_div_cancel _ hpos]
  simp only [Binary64.truncate?, key]

theorem ofInt_of_rounds {n : Int} {m : Nat} {q : Int} (hc : Canonical m q) (hm : 0 < m)
    (h : RoundsTo m q n.natAbs) : ofInt n = ofMagnitudeBits (n < 0) (magnitude m q) :=
  nearest_of_rounds _ hc hm Nat.one_pos (by simpa using h)

theorem ofInt_zero : ofInt 0 = ofMagnitudeBits false 0 := rfl

theorem ofFloat_zero (negative : Bool) :
    Binary64.ofFloat (ofMagnitudeBits negative 0) = .finite negative 0 (-1074) := by
  have hzero : magnitude 0 (-1074) = 0 := by decide
  rw [← hzero]
  exact ofFloat_ofMagnitudeBits negative ⟨by decide, by decide, by decide, Or.inr rfl⟩

/-- The parts of the double that an integer of 64 bits is rounded to. -/
theorem exists_parts_ofInt {i : Int} (hi : i.natAbs ≤ 2 ^ 63) :
    ∃ m q, Binary64.ofFloat (ofInt i) = .finite (decide (i < 0)) m q ∧ RoundsTo m q i.natAbs ∧
      (i.natAbs < 2 ^ 53 → q ≤ 0 ∧ (i.natAbs : ℚ) = m * 2 ^ q) := by
  rcases Nat.eq_zero_or_pos i.natAbs with h0 | h0
  · obtain rfl : i = 0 := Int.natAbs_eq_zero.mp h0
    refine ⟨0, -1074, ?_, ?_, fun _ => ⟨by decide, by simp⟩⟩
    · rw [ofInt_zero]
      exact ofFloat_zero false
    · simpa using RoundsTo.self 0 (-1074)
  · obtain ⟨m, q, value, hc, hm, hround, hvalue, -, hunit, hexact⟩ := exists_rounds h0 hi
    refine ⟨m, q, ?_, hround, fun hlt => ?_⟩
    · rw [ofInt_of_rounds hc hm hround, ofFloat_ofMagnitudeBits _ hc]
    · rw [← hexact hlt.le]
      exact ⟨hunit hlt, hvalue⟩

/-- The integers below `2 ^ 53` are told from all others by their doubles. -/
theorem eq_of_ofInt_eq {n k : Int} (hn : n.natAbs < 2 ^ 53) (hk : k.natAbs ≤ 2 ^ 63)
    (h : ofInt k = ofInt n) : k = n := by
  obtain ⟨m, q, hparts, -, hexact⟩ := exists_parts_ofInt (i := n) (by omega)
  obtain ⟨m', q', hparts', hround, -⟩ := exists_parts_ofInt hk
  obtain ⟨hq, hvalue⟩ := hexact hn
  rw [h, hparts] at hparts'
  obtain ⟨hsign, rfl, rfl⟩ := Binary64.finite.inj hparts'
  -- the interval reaches less than one from `n`, so there is no other integer in it
  have hunit : (2 : ℚ) ^ q ≤ 1 := by
    have := two_zpow_le hq
    rwa [zpow_zero] at this
  have hpos := two_zpow_pos q
  have hgap := gap_le m q
  have h1 := hround.low
  have h2 := hround.high
  have h3 : (n.natAbs : ℚ) < k.natAbs + 1 := by nlinarith
  have h4 : (k.natAbs : ℚ) < n.natAbs + 1 := by nlinarith
  have h5 : n.natAbs < k.natAbs + 1 := by exact_mod_cast h3
  have h6 : k.natAbs < n.natAbs + 1 := by exact_mod_cast h4
  by_cases hneg : n < 0
  · have : k < 0 := by simpa [hneg] using hsign
    omega
  · have : ¬ k < 0 := by simpa [hneg] using hsign
    omega

end LuaConfig.Decimal
