/-
The bits of doubles.

A double is taken apart by `Binary64.ofFloat`, which looks at its bits.  Here the bits are tied to
the double itself:

* `ofBits_toBits`, `toBits_ofBits` — bits that stand for a number come back unchanged, and every
  double is the one of its bits;
* `ofFloat_ofMagnitudeBits`, `eq_ofMagnitudeBits` — a finite double is `± m · 2 ^ q` exactly when
  its bits below the sign are `magnitude m q`;
* `neg_ofMagnitudeBits` — negation changes the sign and nothing else.
-/
import LuaConfig.Decimal.Plain
import Mathlib

open Float.Model Float.Model.UnpackedFloat

namespace LuaConfig.Decimal

/-! ### Fields of the bits -/

theorem toNat_unpackMantissa (b : BitVec 64) :
    (@unpackMantissa Format.binary64 b).toNat = b.toNat % 2 ^ 52 := by
  simp [unpackMantissa]

theorem toNat_unpackExponent (b : BitVec 64) :
    (@unpackExponent Format.binary64 b).toNat = b.toNat / 2 ^ 52 % 2048 := by
  simp [unpackExponent, Nat.shiftRight_eq_div_pow]

theorem toNat_unpackSign (b : BitVec 64) :
    (@unpackSign Format.binary64 b).toNat = b.toNat / 2 ^ 63 % 2 := by
  simp [unpackSign, Nat.shiftRight_eq_div_pow]

theorem toNat_packComponents (s : Sign) (e : BitVec 11) (m : BitVec 52) :
    (packComponents Format.binary64 s e m).toNat =
      s.toBitVec.toNat * 2 ^ 63 + e.toNat * 2 ^ 52 + m.toNat := by
  have he := e.isLt
  have hm := m.isLt
  have h1 : (s.toBitVec ++ e).toNat = s.toBitVec.toNat * 2 ^ 11 + e.toNat := by
    rw [BitVec.toNat_append, ← Nat.shiftLeft_add_eq_or_of_lt he, Nat.shiftLeft_eq]
  have h2 : (s.toBitVec ++ e ++ m).toNat = (s.toBitVec ++ e).toNat * 2 ^ 52 + m.toNat := by
    rw [BitVec.toNat_append, ← Nat.shiftLeft_add_eq_or_of_lt hm, Nat.shiftLeft_eq]
  show (s.toBitVec ++ e ++ m).toNat = _
  rw [h2, h1]
  ring

/-- What a double is taken apart into, by the arithmetic of its bits. -/
theorem unpack_eq (b : BitVec 64) :
    UnpackedFloat.unpack Format.binary64 b =
      let sign : Sign := if b.toNat < 2 ^ 63 then .positive else .negative
      let field : Nat := b.toNat / 2 ^ 52 % 2048
      let fraction : Nat := b.toNat % 2 ^ 52
      if field = 2047 then (if fraction = 0 then .infinity sign else .notANumber)
      else if field = 0 then
        if h : fraction = 0 then .zero sign
        else .finite sign fraction (-1074) (Nat.pos_of_ne_zero h)
      else .finite sign (2 ^ 52 + fraction) ((field : Int) - 1075) (by positivity) := by
  have hb := b.isLt
  -- the three parts of the bits, each as a quotient or a remainder
  have hs : Sign.ofBitVec (@unpackSign Format.binary64 b) =
      if b.toNat < 2 ^ 63 then .positive else .negative := by
    unfold Sign.ofBitVec
    congr 1
    rw [← BitVec.toNat_inj, toNat_unpackSign]
    simp only [BitVec.toNat_ofNat, eq_iff_iff]
    omega
  have he : (@unpackExponent Format.binary64 b = -1#11) ↔
      b.toNat / 2 ^ 52 % 2048 = 2047 := by
    rw [← BitVec.toNat_inj, toNat_unpackExponent]
    simp
  have hz : (@unpackExponent Format.binary64 b = 0#11) ↔
      b.toNat / 2 ^ 52 % 2048 = 0 := by
    rw [← BitVec.toNat_inj, toNat_unpackExponent]
    simp
  have hm : (@unpackMantissa Format.binary64 b = 0#52) ↔ b.toNat % 2 ^ 52 = 0 := by
    rw [← BitVec.toNat_inj, toNat_unpackMantissa]
    simp
  have hone : (1#1 ++ @unpackMantissa Format.binary64 b).toNat =
      2 ^ 52 + b.toNat % 2 ^ 52 := by
    rw [BitVec.toNat_append, ← Nat.shiftLeft_add_eq_or_of_lt (BitVec.isLt _),
      toNat_unpackMantissa]
    simp [Nat.shiftLeft_eq]
  unfold UnpackedFloat.unpack
  simp only [hs, he, hz, hm, toNat_unpackExponent, toNat_unpackMantissa, hone]
  split_ifs with h1 h2 h3 h4
  all_goals first | rfl | skip
  -- the exponents are left, up to their bias
  all_goals simp [Format.exponentBias]
  all_goals omega

/-- An unpacked double with another sign. -/
def withSign (s : Sign) : UnpackedFloat → UnpackedFloat
  | .infinity _ => .infinity s
  | .notANumber => .notANumber
  | .zero _ => .zero s
  | .finite _ m e h => .finite s m e h

/-- Do these bits stand for no number? -/
def isNanBits (n : Nat) : Prop := n / 2 ^ 52 % 2048 = 2047 ∧ n % 2 ^ 52 ≠ 0

theorem pack_finite (s : Sign) (m : Nat) (e : Int) (h : 0 < m) :
    UnpackedFloat.pack Format.binary64 (.finite s m e h) =
      if 2048 ≤ (e + 1023 + 52).toNat + 1 then packedInfinity Format.binary64 s
      else if m.log2 + 1 = 53 then
        packComponents Format.binary64 s (BitVec.ofNat 11 (e + 1023 + 52).toNat) (BitVec.ofNat 52 m)
      else packComponents Format.binary64 s 0#11 (BitVec.ofNat 52 m) := rfl

theorem toNat_pack_withSign (s : Sign) {b : BitVec 64} (hb : ¬ isNanBits b.toNat) :
    (UnpackedFloat.pack Format.binary64 (withSign s (UnpackedFloat.unpack Format.binary64 b))).toNat =
      s.toBitVec.toNat * 2 ^ 63 + b.toNat % 2 ^ 63 := by
  have hlt := b.isLt
  have hnan : b.toNat / 2 ^ 52 % 2048 = 2047 → b.toNat % 2 ^ 52 = 0 := by
    intro h
    by_contra hne
    exact hb ⟨h, hne⟩
  rw [unpack_eq]
  dsimp only
  generalize (if b.toNat < 2 ^ 63 then Sign.positive else Sign.negative) = old
  -- infinities, what is no number, zeros, subnormal and normal numbers
  split_ifs with h1 h2 h3 h4
  · rw [withSign, UnpackedFloat.pack, packedInfinity, toNat_packComponents]
    simp
    omega
  · exact absurd (hnan h1) h2
  · rw [withSign, UnpackedFloat.pack, packedZero, toNat_packComponents]
    simp
    omega
  · have hlog : (b.toNat % 2 ^ 52).log2 < 52 :=
      (Nat.log2_lt h4).mpr (Nat.mod_lt _ (by norm_num))
    rw [withSign, pack_finite, if_neg (by norm_num), if_neg (by omega), toNat_packComponents]
    simp
    omega
  · have hlog : (2 ^ 52 + b.toNat % 2 ^ 52).log2 = 52 := by
      rw [Nat.log2_eq_iff (by positivity)]
      omega
    rw [withSign, pack_finite, if_neg (by omega), if_pos (by omega), toNat_packComponents]
    simp
    omega

theorem withSign_unpack (b : BitVec 64) :
    withSign (if b.toNat < 2 ^ 63 then .positive else .negative)
      (UnpackedFloat.unpack Format.binary64 b) = UnpackedFloat.unpack Format.binary64 b := by
  rw [unpack_eq]
  dsimp only
  split_ifs <;> rfl

theorem neg_unpack (b : BitVec 64) :
    (UnpackedFloat.unpack Format.binary64 b).neg =
      withSign (if b.toNat < 2 ^ 63 then .negative else .positive)
        (UnpackedFloat.unpack Format.binary64 b) := by
  rw [unpack_eq]
  dsimp only
  split_ifs <;> rfl

theorem toBits_ofBits {u : UInt64} (h : ¬ isNanBits u.toNat) : (Float.ofBits u).toBits = u := by
  have hlt : u.toNat < 2 ^ 64 := u.toNat_lt
  show UInt64.ofBitVec (UnpackedFloat.pack Format.binary64
    (UnpackedFloat.unpack Format.binary64 u.toBitVec)) = u
  rw [← UInt64.toNat_inj, ← withSign_unpack u.toBitVec]
  show (UnpackedFloat.pack _ _).toNat = u.toBitVec.toNat
  rw [toNat_pack_withSign _ h]
  show _ = u.toNat
  have hu : u.toBitVec.toNat = u.toNat := rfl
  split <;> simp [Sign.toBitVec] <;> omega

theorem ofBits_toBits (x : Float) : Float.ofBits x.toBits = x := by
  obtain ⟨⟨u, hu⟩⟩ := x
  show Float.ofBits u = _
  have key : (Float.ofBits u).toBits = u := by
    by_cases h : isNanBits u.toNat
    · -- the bits of no number are the chosen ones
      have hb := hu.eq_packedNaN (by
        rw [← BitVec.toNat_inj, toNat_unpackExponent]
        simpa using h.1) (by
        rw [ne_eq, ← BitVec.toNat_inj, toNat_unpackMantissa]
        simpa using h.2)
      have : u = UInt64.ofBitVec (packedNaN Format.binary64) := by
        rw [← UInt64.toBitVec_inj, hb]
      rw [this]
      decide
    · exact toBits_ofBits h
  generalize Float.ofBits u = y at key
  obtain ⟨⟨w, hw⟩⟩ := y
  cases key
  rfl

theorem neg_ofBits {u : UInt64} (h : ¬ isNanBits u.toNat) :
    (-Float.ofBits u).toBits.toNat = (u.toNat + 2 ^ 63) % 2 ^ 64 := by
  have hlt : u.toNat < 2 ^ 64 := u.toNat_lt
  have hu : u.toBitVec.toNat = u.toNat := rfl
  show (UnpackedFloat.pack Format.binary64
    (UnpackedFloat.unpack Format.binary64 (Float.ofBits u).toBits.toBitVec).neg).toNat = _
  rw [toBits_ofBits h, neg_unpack, toNat_pack_withSign _ h]
  split <;> simp [Sign.toBitVec] <;> omega

/-! ### Magnitudes -/

/-- A finite double is `m · 2 ^ q` with such parts, and with no others. -/
structure Canonical (m : Nat) (q : Int) : Prop where
  lt : m < 2 ^ 53
  low : -1074 ≤ q
  high : q ≤ 971
  full : 2 ^ 52 ≤ m ∨ q = -1074

/-- The bits below the sign of `m · 2 ^ q`. -/
def magnitude (m : Nat) (q : Int) : Nat := (q + 1074).toNat * 2 ^ 52 + m

theorem magnitude_lt {m : Nat} {q : Int} (h : Canonical m q) : magnitude m q < infinityBits := by
  have h1 := h.lt
  have h2 := h.high
  have h3 : (q + 1074).toNat ≤ 2045 := by omega
  unfold magnitude infinityBits
  omega

theorem not_isNanBits_of_le {n : Nat} (h : n ≤ infinityBits) : ¬ isNanBits n := by
  unfold infinityBits at h
  rintro ⟨h1, h2⟩
  omega

theorem not_isNanBits_signBit_add {n : Nat} (h : n ≤ infinityBits) : ¬ isNanBits (signBit + n) := by
  unfold infinityBits at h
  unfold signBit
  rintro ⟨h1, h2⟩
  omega

theorem toBits_ofMagnitudeBits (negative : Bool) {n : Nat} (h : n ≤ infinityBits) :
    (ofMagnitudeBits negative n).toBits.toNat = if negative then signBit + n else n := by
  have hb : n ≤ 2047 * 2 ^ 52 := h
  have hs : signBit = 2 ^ 63 := rfl
  unfold ofMagnitudeBits
  cases negative
  · have hn : (UInt64.ofNat n).toNat = n := by
      rw [UInt64.toNat_ofNat']
      omega
    rw [if_neg (by simp), toBits_ofBits (by rw [hn]; exact not_isNanBits_of_le h), hn]
  · have hn : (UInt64.ofNat (signBit + n)).toNat = signBit + n := by
      rw [UInt64.toNat_ofNat']
      omega
    rw [if_pos rfl, toBits_ofBits (by rw [hn]; exact not_isNanBits_signBit_add h), hn]

theorem toBits_toNat_inj {x y : Float} (h : x.toBits.toNat = y.toBits.toNat) : x = y := by
  rw [← ofBits_toBits x, ← ofBits_toBits y, UInt64.toNat_inj.mp h]

/-- The finite double of given parts is taken apart into them. -/
theorem ofFloat_ofMagnitudeBits (negative : Bool) {m : Nat} {q : Int} (h : Canonical m q) :
    Binary64.ofFloat (ofMagnitudeBits negative (magnitude m q)) = .finite negative m q := by
  have hlt := magnitude_lt h
  have h1 := h.lt
  have h2 := h.low
  have h3 := h.high
  have h4 := h.full
  have hq : ((q + 1074).toNat : Int) = q + 1074 := Int.toNat_of_nonneg (by omega)
  rw [Binary64.ofFloat, toBits_ofMagnitudeBits _ hlt.le]
  have hs : signBit = 2 ^ 63 := rfl
  unfold infinityBits at hlt
  unfold Binary64.ofBits
  -- the exponent and the fraction do not depend on the sign
  have key : ∀ n : Nat, n % 2 ^ 63 = magnitude m q →
      n / 2 ^ 52 % 2048 = (if m < 2 ^ 52 then 0 else (q + 1075).toNat) ∧
        n % 2 ^ 52 = (if m < 2 ^ 52 then m else m - 2 ^ 52) := by
    intro n hn
    unfold magnitude at hn hlt
    split <;> omega
  obtain ⟨n, hn, hneg, hmod⟩ : ∃ n, (if negative = true then signBit + magnitude m q
      else magnitude m q) = n ∧ decide (signBit ≤ n) = negative ∧ n % 2 ^ 63 = magnitude m q := by
    refine ⟨_, rfl, ?_, ?_⟩
    · cases negative <;> simp [hs]; omega
    · cases negative <;> simp [hs] <;> omega
  obtain ⟨hf, hr⟩ := key n hmod
  rw [hn]
  dsimp only
  rw [hf, hr, hneg]
  -- subnormal numbers share the exponent of the least normal ones
  by_cases hm : m < 2 ^ 52
  · have hq1 : q = -1074 := h4.resolve_left (by omega)
    rw [if_pos hm, if_pos hm, if_neg (by norm_num), if_pos rfl, hq1]
  · rw [if_neg hm, if_neg hm, if_neg (by omega), if_neg (by omega)]
    have hq1 : ((q + 1075).toNat : Int) - 1075 = q := by omega
    have hm1 : 2 ^ 52 + (m - 2 ^ 52) = m := by omega
    rw [hq1, hm1]

/-- A finite double is the one of its parts. -/
theorem eq_ofMagnitudeBits {x : Float} {negative : Bool} {m : Nat} {q : Int}
    (h : Binary64.ofFloat x = .finite negative m q) :
    Canonical m q ∧ x = ofMagnitudeBits negative (magnitude m q) := by
  have hlt : x.toBits.toNat < 2 ^ 64 := x.toBits.toNat_lt
  have hs : signBit = 2 ^ 63 := rfl
  unfold Binary64.ofFloat Binary64.ofBits at h
  dsimp only at h
  have key : Canonical m q ∧ decide (signBit ≤ x.toBits.toNat) = negative ∧
      x.toBits.toNat % 2 ^ 63 = magnitude m q := by
    unfold magnitude
    split_ifs at h with h1 h2 h3
    · obtain ⟨rfl, rfl, rfl⟩ := Binary64.finite.inj h
      exact ⟨⟨by omega, by omega, by omega, by omega⟩, rfl, by omega⟩
    · obtain ⟨rfl, rfl, rfl⟩ := Binary64.finite.inj h
      exact ⟨⟨by omega, by omega, by omega, by omega⟩, rfl, by omega⟩
  obtain ⟨hc, hneg, hmod⟩ := key
  refine ⟨hc, toBits_toNat_inj ?_⟩
  rw [toBits_ofMagnitudeBits _ (magnitude_lt hc).le, ← hmod, ← hneg]
  split <;> simp_all <;> omega

theorem eq_infinite {x : Float} {negative : Bool} (h : Binary64.ofFloat x = .infinite negative) :
    x = ofMagnitudeBits negative infinityBits := by
  have hlt : x.toBits.toNat < 2 ^ 64 := x.toBits.toNat_lt
  have hs : signBit = 2 ^ 63 := rfl
  have hi : infinityBits = 2047 * 2 ^ 52 := rfl
  unfold Binary64.ofFloat Binary64.ofBits at h
  dsimp only at h
  refine toBits_toNat_inj ?_
  rw [toBits_ofMagnitudeBits _ le_rfl]
  split_ifs at h with h1 h2
  cases h
  split <;> simp_all <;> omega

/-- There is one double that is no number. -/
theorem eq_of_nan {x y : Float} (hx : Binary64.ofFloat x = .nan) (hy : Binary64.ofFloat y = .nan) :
    x = y := by
  have canonical : ∀ z : Float, Binary64.ofFloat z = .nan →
      z.toBits.toBitVec = packedNaN Format.binary64 := by
    intro z hz
    unfold Binary64.ofFloat Binary64.ofBits at hz
    dsimp only at hz
    split_ifs at hz with h1 h2
    refine z.toModel.valid.eq_packedNaN ?_ ?_
    · rw [← BitVec.toNat_inj, toNat_unpackExponent]
      exact h1
    · rw [ne_eq, ← BitVec.toNat_inj, toNat_unpackMantissa]
      exact h2
  refine toBits_toNat_inj ?_
  show x.toBits.toBitVec.toNat = y.toBits.toBitVec.toNat
  rw [canonical x hx, canonical y hy]

/-- Negation changes the sign. -/
theorem neg_ofMagnitudeBits (negative : Bool) {n : Nat} (h : n ≤ infinityBits) :
    -ofMagnitudeBits negative n = ofMagnitudeBits (!negative) n := by
  have hb : n ≤ 2047 * 2 ^ 52 := h
  have hs : signBit = 2 ^ 63 := rfl
  have hbits := toBits_ofMagnitudeBits negative h
  have hnan : ¬ isNanBits (ofMagnitudeBits negative n).toBits.toNat := by
    rw [hbits]
    split
    · exact not_isNanBits_signBit_add h
    · exact not_isNanBits_of_le h
  have hneg := neg_ofBits hnan
  rw [ofBits_toBits] at hneg
  refine toBits_toNat_inj ?_
  rw [hneg, hbits, toBits_ofMagnitudeBits _ h]
  cases negative <;> simp [hs] <;> omega

end LuaConfig.Decimal
