/-
Quoted strings, written and read again.

`scan_quoted` — the text of a quoted string is read to its closing quote, and what it holds are the
octets of the text that was quoted, whatever they are.
-/
import LuaConfig.Lua.Token.Quoted
import LuaConfig.Proofs.Lua.Octets
import LuaConfig.Script.Literal

namespace LuaConfig.Script

open Lua Lua.Octets
open Lua.Quoted (scan step stepPlain stepEscape)

/-- The octet of the double quote. -/
def quoteOctet : UInt8 := 34

theorem scan_plain {b : UInt8} (h1 : b ≠ 34) (h2 : b ≠ 92) (h3 : b ≠ 10) (h4 : b ≠ 13)
    (out : Octets) (line : Nat) (rest : List UInt8) :
    scan quoteOctet .plain out line (b :: rest) =
      scan quoteOctet .plain (out.push b) line rest := by
  have hstep : step quoteOctet .plain b out line = .more .plain (out.push b) line := by
    simp [step, stepPlain, quoteOctet, Quoted.isLineEnd, h1, h2, h3, h4]
  rw [scan, hstep]

theorem scan_backslash (out : Octets) (line : Nat) (rest : List UInt8) :
    scan quoteOctet .plain out line (92 :: rest) = scan quoteOctet .escape out line rest := by
  rw [scan]
  rfl

theorem scan_letter {b c : UInt8} (h : Quoted.letter? b = some c) (out : Octets) (line : Nat)
    (rest : List UInt8) :
    scan quoteOctet .escape out line (b :: rest) =
      scan quoteOctet .plain (out.push c) line rest := by
  have hstep : step quoteOctet .escape b out line = .more .plain (out.push c) line := by
    simp only [step, stepEscape, h]
  rw [scan, hstep]

/-! ### Decimal escapes -/

/-- The octet of a decimal digit. -/
def digitOctet (a : Nat) : UInt8 := UInt8.ofNat (48 + a)

theorem encodeChar_digitChar {a : Nat} (h : a < 10) :
    String.utf8EncodeChar (digitChar a) = [digitOctet a] := by
  interval_cases a <;> rfl

theorem scan_firstDigit {a : Nat} (h : a < 10) (out : Octets) (line : Nat) (rest : List UInt8) :
    scan quoteOctet .escape out line (digitOctet a :: rest) =
      scan quoteOctet (.decimal a 1) out line rest := by
  have hstep : step quoteOctet .escape (digitOctet a) out line = .more (.decimal a 1) out line := by
    interval_cases a <;> rfl
  rw [scan, hstep]

theorem scan_nextDigit {a n count : Nat} (h : a < 10) (hc : count < 3) (out : Octets) (line : Nat)
    (rest : List UInt8) :
    scan quoteOctet (.decimal n count) out line (digitOctet a :: rest) =
      scan quoteOctet (.decimal (10 * n + a) (count + 1)) out line rest := by
  have hdigit : Octets.isDigit (digitOctet a) ∧ (digitOctet a).toNat - 48 = a := by
    interval_cases a <;> decide
  have hstep : step quoteOctet (.decimal n count) (digitOctet a) out line =
      .more (.decimal (10 * n + a) (count + 1)) out line := by
    simp only [step, hc, hdigit, and_self, if_true]
  rw [scan, hstep]

/-- A decimal escape of three digits ends before the next octet. -/
theorem scan_decimal {n : Nat} (h : n < 256) (out : Octets) (line : Nat) (rest : List UInt8) :
    scan quoteOctet (.decimal n 3) out line rest =
      scan quoteOctet .plain (out.push (UInt8.ofNat n)) line rest := by
  cases rest with
  | nil => rfl
  | cons b rest =>
    have hstep : step quoteOctet (.decimal n 3) b out line =
        step quoteOctet .plain b (out.push (UInt8.ofNat n)) line := by
      simp [step, h]
    rw [scan, scan, hstep]

/-! ### Characters -/

/-- An octet that stands for itself in a quoted string. -/
def IsVerbatim (b : UInt8) : Prop := b ≠ 34 ∧ b ≠ 92 ∧ b ≠ 10 ∧ b ≠ 13

theorem scan_verbatim {octets : List UInt8} (h : ∀ b ∈ octets, IsVerbatim b) (out : Octets)
    (line : Nat) (rest : List UInt8) :
    scan quoteOctet .plain out line (octets ++ rest) =
      scan quoteOctet .plain (out ++ ofList octets) line rest := by
  induction octets generalizing out with
  | nil =>
    have : out ++ ofList [] = out := by
      apply toList_inj
      rw [toList_append, toList_ofList, List.append_nil]
    rw [this]
    rfl
  | cons b octets ih =>
    obtain ⟨h1, h2, h3, h4⟩ := h b (by simp)
    have hout : out.push b ++ ofList octets = out ++ ofList (b :: octets) := by
      apply toList_inj
      rw [toList_append, toList_append, toList_push, toList_ofList, toList_ofList,
        List.append_assoc]
      rfl
    rw [List.cons_append, scan_plain h1 h2 h3 h4, ih fun c hc => h c (by simp [hc]), hout]

theorem verbatim_encodeChar {c : Char} (h1 : c ≠ '"') (h2 : c ≠ '\\') (h3 : c ≠ '\n')
    (h4 : c ≠ '\r') : ∀ b ∈ String.utf8EncodeChar c, IsVerbatim b := by
  intro b hb
  rcases Nat.lt_or_ge c.toNat 128 with hlt | hge
  · rw [encodeChar_ascii hlt, List.mem_singleton] at hb
    have hne : ∀ d : Char, d.toNat < 128 → c ≠ d → b ≠ UInt8.ofNat d.toNat := by
      intro d hd hcd heq
      apply hcd
      rw [hb, ← UInt8.toNat_inj, UInt8.toNat_ofNat', UInt8.toNat_ofNat',
        Nat.mod_eq_of_lt (by omega), Nat.mod_eq_of_lt (by omega)] at heq
      exact Char.toNat_inj.mp heq
    exact ⟨hne '"' (by decide) h1, hne '\\' (by decide) h2, hne '\n' (by decide) h3,
      hne '\r' (by decide) h4⟩
  · have := le_of_mem_encodeChar hge hb
    refine ⟨?_, ?_, ?_, ?_⟩ <;> rintro rfl <;> revert this <;> decide

theorem append_encodeChar_ascii {c : Char} (h : c.toNat < 128) (out : Octets) :
    out ++ ofList (String.utf8EncodeChar c) = out.push (UInt8.ofNat c.toNat) := by
  apply toList_inj
  rw [toList_append, toList_push, toList_ofList, encodeChar_ascii h]

/-- A character is read from its form inside a quoted string. -/
theorem scan_escape (c : Char) (out : Octets) (line : Nat) (rest : List UInt8) :
    scan quoteOctet .plain out line (encoded (escape c) ++ rest) =
      scan quoteOctet .plain (out ++ ofList (String.utf8EncodeChar c)) line rest := by
  unfold escape
  -- five escapes by a letter, three digits for other controls, or the character itself
  split_ifs with h1 h2 h3 h4 h5 h6
  · subst h1
    rw [append_encodeChar_ascii (by decide)]
    exact (scan_backslash _ _ _).trans (scan_letter (by decide) _ _ _)
  · subst h2
    rw [append_encodeChar_ascii (by decide)]
    exact (scan_backslash _ _ _).trans (scan_letter (by decide) _ _ _)
  · subst h3
    rw [append_encodeChar_ascii (by decide)]
    exact (scan_backslash _ _ _).trans (scan_letter (by decide) _ _ _)
  · subst h4
    rw [append_encodeChar_ascii (by decide)]
    exact (scan_backslash _ _ _).trans (scan_letter (by decide) _ _ _)
  · subst h5
    rw [append_encodeChar_ascii (by decide)]
    exact (scan_backslash _ _ _).trans (scan_letter (by decide) _ _ _)
  · have hlt : c.toNat < 128 := by
      simp only [isControl, decide_eq_true_eq] at h6
      omega
    have hvalue : 10 * (10 * (c.toNat / 100) + c.toNat / 10 % 10) + c.toNat % 10 = c.toNat := by
      omega
    rw [append_encodeChar_ascii hlt]
    simp only [encoded_cons, encodeChar_digitChar (show c.toNat / 100 < 10 by omega),
      encodeChar_digitChar (show c.toNat / 10 % 10 < 10 by omega),
      encodeChar_digitChar (show c.toNat % 10 < 10 by omega), encoded_nil, List.append_nil,
      List.append_assoc]
    show scan quoteOctet .plain out line (92 :: digitOctet _ :: digitOctet _ :: digitOctet _ :: rest)
      = _
    rw [scan_backslash, scan_firstDigit (by omega), scan_nextDigit (by omega) (by decide),
      scan_nextDigit (by omega) (by decide), hvalue, scan_decimal (by omega)]
  · have hself : encoded [c] = String.utf8EncodeChar c := by simp [encoded]
    rw [hself, scan_verbatim (verbatim_encodeChar h2 h1 h3 h4)]

/-- A quoted string is read to its closing quote, and holds the octets of the quoted text. -/
theorem scan_quoted (text : List Char) (out : Octets) (line : Nat) (rest : List UInt8) :
    scan quoteOctet .plain out line (encoded (text.flatMap escape ++ ['"']) ++ rest) =
      ⟨.string (out ++ ofList (encoded text)), line, rest⟩ := by
  induction text generalizing out with
  | nil =>
    have : out ++ ofList (encoded []) = out := by
      apply toList_inj
      rw [toList_append, toList_ofList]
      exact List.append_nil _
    rw [this]
    rfl
  | cons c text ih =>
    have hout : out ++ ofList (String.utf8EncodeChar c) ++ ofList (encoded text) =
        out ++ ofList (encoded (c :: text)) := by
      apply toList_inj
      simp only [toList_append, toList_ofList, encoded_cons, List.append_assoc]
    rw [List.flatMap_cons, List.append_assoc, encoded_append, List.append_assoc, scan_escape, ih,
      hout]

end LuaConfig.Script
