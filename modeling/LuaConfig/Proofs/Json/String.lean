/-
Strings that are read back.

A character is escaped in as many ways as JSON has escapes, and each of them takes one step of the
reader (`readStringRest_escape`, `skipStringRest_escape`).  So every string is read back from its
text, whatever follows (`readString_quoted`), and its text is passed over (`skipString_quoted`).
-/
import LuaConfig.Json.Document
import LuaConfig.Json.Reader
import Mathlib

namespace LuaConfig.Json

/-- The four digits with which a control character is escaped. -/
theorem readHex4_control {n : Nat} (h : n < 32) (rest : List Char) :
    readHex4 ('0' :: '0' :: hexDigit (n / 16) :: hexDigit (n % 16) :: rest) = .ok (n, rest) := by
  interval_cases n <;> rfl

theorem ofNat_of_lt {c : Char} {n : Nat} (h : c.toNat = n) : Char.ofNat n = c := by
  rw [← h, Char.ofNat_toNat]

/-- A number that is not half of a pair spells its character. -/
theorem readEscape_hex {digits rest : List Char} {n : Nat} (h : readHex4 digits = .ok (n, rest))
    (hn : n < 0xD800) : readEscape ('u' :: digits) = .ok (Char.ofNat n, rest) := by
  have hlow : isLowSurrogate n = false := by
    simp only [isLowSurrogate, decide_eq_false_iff_not]
    omega
  have hhigh : isHighSurrogate n = false := by
    simp only [isHighSurrogate, decide_eq_false_iff_not]
    omega
  simp [readEscape, h, hlow, hhigh, bind, Except.bind]

theorem readStringRest_backslash (out : String) (fuel : Nat) {text rest : List Char} {c : Char}
    (h : readEscape text = .ok (c, rest)) :
    readStringRest out (fuel + 1) ('\\' :: text) = readStringRest (out.push c) fuel rest := by
  have hquote : ('\\' : Char) ≠ '"' := by decide
  simp only [readStringRest, if_neg hquote, if_true, h]

/-- A character is read from its escape. -/
theorem readStringRest_escape (out : String) (fuel : Nat) (c : Char) (rest : List Char) :
    readStringRest out (fuel + 1) (escape c ++ rest) = readStringRest (out.push c) fuel rest := by
  unfold escape
  -- seven short escapes, four hexadecimal digits, or the character itself
  split_ifs with h1 h2 h3 h4 h5 h6 h7 h8
  · subst h1
    rfl
  · subst h2
    rfl
  · subst h3
    rfl
  · subst h4
    rfl
  · subst h5
    rfl
  · rw [← ofNat_of_lt h6]
    rfl
  · rw [← ofNat_of_lt h7]
    rfl
  · refine readStringRest_backslash out fuel ?_
    show readEscape ('u' :: '0' :: '0' :: hexDigit (c.toNat / 16) :: hexDigit (c.toNat % 16) ::
      rest) = _
    rw [readEscape_hex (readHex4_control h8 rest) (by omega), Char.ofNat_toNat]
  · simp only [List.cons_append, List.nil_append, readStringRest, if_neg h1, if_neg h2, if_neg h8]

theorem readStringRest_escaped (out : String) {fuel : Nat} (cs rest : List Char)
    (h : cs.length < fuel) :
    readStringRest out fuel (cs.flatMap escape ++ '"' :: rest) =
      .ok (out ++ String.ofList cs, rest) := by
  induction cs generalizing out fuel with
  | nil =>
    obtain ⟨fuel, rfl⟩ := Nat.exists_eq_succ_of_ne_zero (Nat.ne_of_gt h)
    simp [readStringRest]
  | cons c cs ih =>
    obtain ⟨fuel, rfl⟩ := Nat.exists_eq_succ_of_ne_zero (Nat.ne_of_gt (Nat.zero_lt_of_lt h))
    rw [List.flatMap_cons, List.append_assoc, readStringRest_escape,
      ih _ (Nat.lt_of_succ_lt_succ h)]
    congr 2
    rw [← String.toList_inj]
    simp

theorem one_le_length_escape (c : Char) : 1 ≤ (escape c).length := by
  unfold escape
  split_ifs <;> simp

theorem length_le_length_escaped (cs : List Char) : cs.length ≤ (cs.flatMap escape).length := by
  induction cs with
  | nil => simp
  | cons c cs ih =>
    have := one_le_length_escape c
    simp only [List.flatMap_cons, List.length_append, List.length_cons]
    omega

theorem toList_quoted (s : String) :
    (quoted s).toList = '"' :: (s.toList.flatMap escape ++ ['"']) := by
  simp [quoted]

/-- A string is read back. -/
theorem readString_quoted (s : String) (rest : List Char) :
    readString (s.toList.flatMap escape ++ '"' :: rest) = .ok (s, rest) := by
  have hlen := length_le_length_escaped s.toList
  rw [readString, readStringRest_escaped]
  · simp
  · simp only [List.length_append]
    omega

/-! ### Strings that are passed over -/

theorem skipStringRest_escape (fuel : Nat) (c : Char) (rest : List Char) :
    skipStringRest (fuel + 1) (escape c ++ rest) = skipStringRest fuel rest := by
  unfold escape
  split_ifs with h1 h2 h3 h4 h5 h6 h7 h8
  any_goals rfl
  · have hquote : ('\\' : Char) ≠ '"' := by decide
    simp only [List.cons_append, List.nil_append, skipStringRest, if_neg hquote, if_true,
      readHex4_control h8]
  · simp only [List.cons_append, List.nil_append, skipStringRest, if_neg h1, if_neg h2, if_neg h8]

theorem skipStringRest_escaped {fuel : Nat} (cs rest : List Char) (h : cs.length < fuel) :
    skipStringRest fuel (cs.flatMap escape ++ '"' :: rest) = .ok rest := by
  induction cs generalizing fuel with
  | nil =>
    obtain ⟨fuel, rfl⟩ := Nat.exists_eq_succ_of_ne_zero (Nat.ne_of_gt h)
    simp [skipStringRest]
  | cons c cs ih =>
    obtain ⟨fuel, rfl⟩ := Nat.exists_eq_succ_of_ne_zero (Nat.ne_of_gt (Nat.zero_lt_of_lt h))
    rw [List.flatMap_cons, List.append_assoc, skipStringRest_escape]
    exact ih (Nat.lt_of_succ_lt_succ h)

/-- A string is passed over. -/
theorem skipString_quoted (s : String) (rest : List Char) :
    skipStringRest ((s.toList.flatMap escape ++ '"' :: rest).length + 1)
      (s.toList.flatMap escape ++ '"' :: rest) = .ok rest := by
  have hlen := length_le_length_escaped s.toList
  refine skipStringRest_escaped s.toList rest ?_
  simp only [List.length_append]
  omega

end LuaConfig.Json
