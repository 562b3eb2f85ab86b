/-
Plain decimal text and the number that it stands for.

* `positional_spec` — the text of a decimal is a numeral without exponent that stands for it;
* `scanDecimal_of_positional` — a numeral without exponent is read to its end, exactly.

The unsigned part of a double's plain text (`magnitudeText`) is such a numeral, and stands for a
number that is read as the double (`magnitudeText_spec`).
-/
import LuaConfig.Decimal.Plain
import LuaConfig.Decimal.Reading
import LuaConfig.Proofs.Decimal.Shortest

namespace LuaConfig.Decimal

open Nat (ofDigitChars)

/-! ### Digits -/

/-- A text of digits only. -/
def Digits (text : List Char) : Prop := ∀ c ∈ text, c.isDigit

/-- A text that does not begin with a digit. -/
def NoDigit (text : List Char) : Prop := ∀ c ∈ text.head?, ¬ c.isDigit

theorem noDigit_nil : NoDigit [] := by simp [NoDigit]

theorem Digits.append {ds es : List Char} (h1 : Digits ds) (h2 : Digits es) :
    Digits (ds ++ es) := by
  intro c hc
  rcases List.mem_append.mp hc with h | h
  · exact h1 c h
  · exact h2 c h

theorem digits_zeros (n : Nat) : Digits (List.replicate n '0') := by
  intro c hc
  rw [List.eq_of_mem_replicate hc]
  rfl

theorem digits_toDigits (n : Nat) : Digits (Nat.toDigits 10 n) :=
  fun _ hc => Nat.isDigit_of_mem_toDigits (by decide) (by decide) hc

theorem digit?_of_isDigit {c : Char} (h : c.isDigit) : digit? c = some (c.toNat - '0'.toNat) :=
  if_pos (by simpa [Char.isDigit, Char.le_def] using h)

theorem digit?_of_not_isDigit {c : Char} (h : ¬ c.isDigit) : digit? c = none :=
  if_neg (by simpa [Char.isDigit, Char.le_def] using h)

/-- Digits are read up to the first character that is none. -/
theorem scanDigits_append {ds rest : List Char} (hd : Digits ds) (hr : NoDigit rest)
    (n count : Nat) :
    scanDigits n count (ds ++ rest) = (ofDigitChars 10 ds n, count + ds.length, rest) := by
  induction ds generalizing n count with
  | nil =>
    cases rest with
    | nil => rfl
    | cons c rest =>
      have hc : digit? c = none := digit?_of_not_isDigit (hr c rfl)
      simp [scanDigits, hc]
  | cons c ds ih =>
    have hc : digit? c = some (c.toNat - '0'.toNat) := digit?_of_isDigit (hd c (by simp))
    have htail : Digits ds := fun d h => hd d (by simp [h])
    simp only [List.cons_append, scanDigits, hc, ih htail, Nat.ofDigitChars_cons, List.length_cons]
    congr 2
    omega

theorem scanDigits_all {ds : List Char} (hd : Digits ds) (n count : Nat) :
    scanDigits n count ds = (ofDigitChars 10 ds n, count + ds.length, []) := by
  simpa using scanDigits_append hd noDigit_nil n count

/-! ### Numerals without exponent -/

/-- The text is digits, with a point among them or without, and stands for the number. -/
inductive Positional : List Char → ℚ → Prop
  | whole {ds : List Char} (nonempty : ds ≠ []) (digits : Digits ds) :
      Positional ds (ofDigitChars 10 ds 0 : Nat)
  | pointed {ds fs : List Char} (nonempty : ds ≠ []) (digits : Digits ds) (fraction : Digits fs) :
      Positional (ds ++ '.' :: fs)
        ((ofDigitChars 10 (ds ++ fs) 0 : Nat) * 10 ^ (-(fs.length : Int)))

theorem ofDigitChars_toDigits (n : Nat) : ofDigitChars 10 (Nat.toDigits 10 n) 0 = n :=
  Nat.ofDigitChars_toDigits (by decide) (by decide)

/-- Zeros behind the digits of a number multiply it. -/
theorem ofDigitChars_zeros_behind (n k : Nat) :
    ofDigitChars 10 (Nat.toDigits 10 n ++ List.replicate k '0') 0 = n * 10 ^ k := by
  rw [Nat.ofDigitChars_append, ofDigitChars_toDigits, Nat.ofDigitChars_replicate_zero, Nat.mul_comm]

/-- Zeros in front of them do nothing. -/
theorem ofDigitChars_zeros_before (n k : Nat) :
    ofDigitChars 10 (List.replicate k '0' ++ Nat.toDigits 10 n) 0 = n := by
  rw [Nat.ofDigitChars_append, Nat.ofDigitChars_replicate_zero, Nat.mul_zero, ofDigitChars_toDigits]

theorem value_of_nonneg {d : Scaled} (he : 0 ≤ d.exponent) :
    d.value = (d.digits * 10 ^ d.exponent.toNat : Nat) := by
  obtain ⟨e, he⟩ := Int.eq_ofNat_of_zero_le he
  rw [Scaled.value, he, zpow_natCast, Int.toNat_natCast]
  push_cast
  rfl

theorem toList_withPoint (digits : String) (places : Nat) :
    (withPoint digits places).toList =
      let padded := List.replicate (places + 1 - digits.toList.length) '0' ++ digits.toList
      padded.take (padded.length - places) ++ '.' :: padded.drop (padded.length - places) := by
  simp [withPoint, zeros, String.length_toList]

/-- A point among digits divides by a power of ten. -/
theorem Positional.point {ds : List Char} (hd : Digits ds) {places : Nat}
    (hplaces : places < ds.length) :
    Positional (ds.take (ds.length - places) ++ '.' :: ds.drop (ds.length - places))
      ((ofDigitChars 10 ds 0 : Nat) * 10 ^ (-(places : Int))) := by
  have hne : ds.take (ds.length - places) ≠ [] := by
    intro hnil
    have hlength := congrArg List.length hnil
    rw [List.length_take, List.length_nil] at hlength
    omega
  have hlength : (ds.drop (ds.length - places)).length = places := by
    rw [List.length_drop]
    omega
  have hwhole : Digits (ds.take (ds.length - places)) := fun c hc => hd c (List.mem_of_mem_take hc)
  have hfraction : Digits (ds.drop (ds.length - places)) :=
    fun c hc => hd c (List.mem_of_mem_drop hc)
  have hpointed := Positional.pointed hne hwhole hfraction
  rwa [List.take_append_drop, hlength] at hpointed

/-- The text of a decimal stands for it. -/
theorem positional_spec (d : Scaled) : Positional d.positional.toList d.value := by
  unfold Scaled.positional
  dsimp only
  split
  · next h =>
    have htext : (d.digits.repr ++ zeros d.exponent.toNat).toList =
        Nat.toDigits 10 d.digits ++ List.replicate d.exponent.toNat '0' := by
      simp [zeros, Nat.toList_repr]
    rw [htext, value_of_nonneg h, ← ofDigitChars_zeros_behind]
    refine .whole ?_ ((digits_toDigits _).append (digits_zeros _))
    simp [Nat.toDigits_ne_nil]
  · next h =>
    have hplaces : d.exponent = -((-d.exponent).toNat : Int) := by omega
    have hvalue : d.value = d.digits * 10 ^ (-((-d.exponent).toNat : Int)) := by
      rw [← hplaces, Scaled.value]
    rw [toList_withPoint, Nat.toList_repr, hvalue]
    generalize (-d.exponent).toNat = places
    -- there are zeros in front where the digits are too few for a point among them
    have hlong : places < (List.replicate (places + 1 - (Nat.toDigits 10 d.digits).length) '0' ++
        Nat.toDigits 10 d.digits).length := by
      rw [List.length_append, List.length_replicate]
      omega
    have hpoint := Positional.point ((digits_zeros _).append (digits_toDigits _)) hlong
    rw [ofDigitChars_zeros_before] at hpoint
    exact hpoint

theorem noDigit_point (fs : List Char) : NoDigit ('.' :: fs) := by
  intro c hc
  cases hc
  decide

theorem ofDigitChars_append_eq (ds fs : List Char) :
    ofDigitChars 10 fs (ofDigitChars 10 ds 0) = ofDigitChars 10 (ds ++ fs) 0 :=
  (Nat.ofDigitChars_append 0).symm

/-- A numeral without exponent is read to its end. -/
theorem scanDecimal_of_positional {text : List Char} {r : ℚ} (h : Positional text r) :
    ∃ d, scanDecimal? text = some (d, []) ∧ d.value = r := by
  cases h with
  | whole hne hd =>
    refine ⟨⟨ofDigitChars 10 text 0, 0⟩, ?_, by simp [Scaled.value]⟩
    have hlen : 0 < text.length := List.length_pos_iff.mpr hne
    have hsum : ¬ (0 + text.length + 0 = 0) := by omega
    simp only [scanDecimal?, scanDigits_all hd, if_neg hsum, scanExponent]
    rfl
  | @pointed ds fs hne hd hf =>
    refine ⟨⟨ofDigitChars 10 (ds ++ fs) 0, -(fs.length : Int)⟩, ?_, rfl⟩
    have hlen : 0 < ds.length := List.length_pos_iff.mpr hne
    have hsum : ¬ (0 + ds.length + (0 + fs.length) = 0) := by omega
    simp only [scanDecimal?, scanDigits_append hd (noDigit_point fs), scanDigits_all hf,
      if_neg hsum, scanExponent, ofDigitChars_append_eq]
    simp

/-! ### The text of a double -/

/-- The plain text of `m · 2 ^ q`. -/
def magnitudeText (m : Nat) (q : Int) : String :=
  if m = 0 then "0" else (shortest .up m q).positional

theorem plain_finite {x : Float} {negative : Bool} {m : Nat} {q : Int}
    (h : Binary64.ofFloat x = .finite negative m q) :
    plain x = signed negative (magnitudeText m q) := by
  simp only [plain, h, magnitudeText]

/-- The text of a double without its sign stands for a number that is read as the double. -/
theorem magnitudeText_spec {m : Nat} (q : Int) (hm : 0 < m) :
    ∃ r, Positional (magnitudeText m q).toList r ∧ RoundsTo m q r := by
  refine ⟨(shortest .up m q).value, ?_, shortest_rounds .up q hm⟩
  rw [magnitudeText, if_neg hm.ne']
  exact positional_spec _

end LuaConfig.Decimal
