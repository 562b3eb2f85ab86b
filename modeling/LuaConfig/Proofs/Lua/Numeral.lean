/-
The numbers that numerals stand for.

A text of digits is an integer where it fits into 64 bits, and a double otherwise
(`ofChars_digits`); so is every numeral without exponent (`ofChars_of_positional`).  Read in this
way, the text of a positive double gives the double itself or an integer that is rounded to it
(`ofChars_magnitudeText`).
-/
import LuaConfig.Lua.Numeral
import LuaConfig.Lua.Value
import LuaConfig.Proofs.Decimal.Plain

namespace LuaConfig.Lua.Numeral

open Decimal
open Nat (ofDigitChars)

theorem dropWhile_of_head {p : Char → Bool} {text : List Char} (h : ∀ c ∈ text, p c = false) :
    text.dropWhile p = text := by
  cases text with
  | nil => rfl
  | cons c rest => rw [List.dropWhile_cons_of_neg (by simp [h c])]

theorem trim_of_not_space {text : List Char} (h : ∀ c ∈ text, isSpace c = false) :
    trim text = text := by
  have hrev : ∀ c ∈ text.reverse, isSpace c = false := fun c hc => h c (List.mem_reverse.mp hc)
  rw [trim, dropWhile_of_head h, dropWhile_of_head hrev, List.reverse_reverse]

theorem isDigit_range {c : Char} (h : c.isDigit) : 48 ≤ c.toNat ∧ c.toNat ≤ 57 :=
  Char.isDigit_iff_toNat.mp h

/-- The characters of a numeral without exponent. -/
theorem mem_positional {text : List Char} {r : ℚ} (h : Positional text r) {c : Char}
    (hc : c ∈ text) : c.isDigit ∨ c = '.' := by
  cases h with
  | whole hne hd => exact Or.inl (hd c hc)
  | pointed hne hd hf =>
    rcases List.mem_append.mp hc with h1 | h1
    · exact Or.inl (hd c h1)
    · rcases List.mem_cons.mp h1 with rfl | h2
      · exact Or.inr rfl
      · exact Or.inl (hf c h2)

theorem head_positional {text : List Char} {r : ℚ} (h : Positional text r) :
    ∃ c rest, text = c :: rest ∧ c.isDigit := by
  cases h with
  | whole hne hd =>
    obtain ⟨c, rest, rfl⟩ := List.exists_cons_of_ne_nil hne
    exact ⟨c, rest, rfl, hd c (by simp)⟩
  | @pointed ds fs hne hd hf =>
    obtain ⟨c, rest, rfl⟩ := List.exists_cons_of_ne_nil hne
    exact ⟨c, rest ++ '.' :: fs, rfl, hd c (by simp)⟩

theorem isSpace_of_isDigit {c : Char} (h : c.isDigit ∨ c = '.') : isSpace c = false := by
  rcases h with h | rfl
  · have hr := isDigit_range h
    have hspace : c ≠ ' ' := by
      rintro rfl
      exact absurd hr.1 (by decide)
    simp only [isSpace, hspace, false_or, decide_eq_false_iff_not]
    omega
  · rfl

/-- A numeral without exponent has no sign and is not hexadecimal. -/
theorem ofChars_eq_decimal {text : List Char} {r : ℚ} (h : Positional text r) :
    ofChars? text = decimal? false text := by
  have hmem := @mem_positional text r h
  obtain ⟨c, rest, rfl, hc⟩ := head_positional h
  have hrange := isDigit_range hc
  -- neither a sign nor the mark of a hexadecimal numeral
  have hsign : scanSign (c :: rest) = (false, c :: rest) := by
    unfold scanSign
    split
    · next heq =>
      cases heq
      exact absurd hrange.1 (by decide)
    · next heq =>
      cases heq
      exact absurd hrange.1 (by decide)
    · rfl
  rw [ofChars?, trim_of_not_space fun c hc => isSpace_of_isDigit (hmem hc), hsign]
  cases rest with
  | nil =>
    split
    · next heq => simp at heq
    · next heq =>
      cases heq
      rfl
  | cons d rest =>
    have hd : ¬ (d = 'x' ∨ d = 'X') := by
      have hmark := hmem (List.mem_cons_of_mem c List.mem_cons_self)
      rintro (rfl | rfl) <;> revert hmark <;> decide
    split
    · next heq =>
      cases heq
      rw [if_neg hd]
    · next heq =>
      cases heq
      rfl

/-- A text of digits is an integer if that is one of 64 bits, and the nearest double otherwise. -/
theorem ofChars_digits {ds : List Char} (hne : ds ≠ []) (hd : Digits ds) :
    ofChars? ds = some (if ofDigitChars 10 ds 0 < 2 ^ 63 then
      .int (Int64.ofInt (ofDigitChars 10 ds 0 : Nat))
    else .float (ofDecimal false (ofDigitChars 10 ds 0) 0)) := by
  obtain ⟨n, hn⟩ : ∃ n, ds.length = n + 1 := ⟨ds.length - 1, by
    have := List.length_pos_iff.mpr hne
    omega⟩
  rw [ofChars_eq_decimal (.whole hne hd)]
  simp only [decimal?, scanDigits_all hd, Nat.zero_add, hn, Bool.false_eq_true, if_false]
  by_cases hlt : ofDigitChars 10 ds 0 < 2 ^ 63
  · rw [if_pos (by omega), if_pos hlt]
  · rw [if_neg (by omega), if_neg hlt]

/-- A numeral without exponent is the integer that it stands for, or the double nearest to it. -/
theorem ofChars_of_positional {text : List Char} {r : ℚ} (h : Positional text r) :
    (∃ k : Nat, (k : ℚ) = r ∧ k < 2 ^ 63 ∧ ofChars? text = some (.int (Int64.ofInt k))) ∨
    ∃ d : Scaled, d.value = r ∧
      ofChars? text = some (.float (ofDecimal false d.digits d.exponent)) := by
  have hdecimal := ofChars_eq_decimal h
  have hscan := scanDecimal_of_positional h
  cases h with
  | whole hne hd =>
    rw [ofChars_digits hne hd]
    by_cases hlt : ofDigitChars 10 text 0 < 2 ^ 63
    · exact Or.inl ⟨_, rfl, hlt, by rw [if_pos hlt]⟩
    · exact Or.inr ⟨⟨ofDigitChars 10 text 0, 0⟩, by simp [Scaled.value], by rw [if_neg hlt]⟩
  | @pointed ds fs hne hd hf =>
    obtain ⟨d, hd1, hd2⟩ := hscan
    refine Or.inr ⟨d, hd2, ?_⟩
    rw [hdecimal]
    simp only [decimal?, scanDigits_append hd (noDigit_point fs), hd1]
    split
    · next heq => simp at heq
    · rfl

theorem toInt_ofInt {n : Int} (h1 : -2 ^ 63 ≤ n) (h2 : n < 2 ^ 63) : (Int64.ofInt n).toInt = n :=
  Int64.toInt_ofInt_of_le h1 h2

/-- An integer that is read as a double has it as its own. -/
theorem toFloat_of_rounds {m : Nat} {q : Int} (hc : Canonical m q) (hm : 0 < m) {n : Int64}
    (h : RoundsTo m q n.toInt.natAbs) :
    Value.toFloat n = ofMagnitudeBits (n.toInt < 0) (magnitude m q) :=
  nearest_of_rounds _ hc hm Nat.one_pos (by simpa using h)

/-- The text of a positive double is read as the double or as an integer that is rounded to it. -/
theorem ofChars_magnitudeText {m : Nat} {q : Int} (hc : Canonical m q) (hm : 0 < m) :
    ofChars? (magnitudeText m q).toList = some (.float (ofMagnitudeBits false (magnitude m q))) ∨
    ∃ n : Int64, ofChars? (magnitudeText m q).toList = some (.int n) ∧ 0 < n.toInt ∧
      RoundsTo m q n.toInt.natAbs := by
  obtain ⟨r, hr, hround⟩ := magnitudeText_spec q hm
  rcases ofChars_of_positional hr with ⟨k, rfl, hk, htext⟩ | ⟨d, rfl, htext⟩
  · have hpos : (0 : ℚ) < k := hround.pos hm
    have hint : (Int64.ofInt k).toInt = k := toInt_ofInt (by omega) (by exact_mod_cast hk)
    refine Or.inr ⟨_, htext, ?_, ?_⟩
    · rw [hint]
      exact_mod_cast hpos
    · rw [hint, Int.natAbs_natCast]
      exact hround
  · exact Or.inl (by rw [htext, ofDecimal_of_rounds false hc hm hround])

end LuaConfig.Lua.Numeral
