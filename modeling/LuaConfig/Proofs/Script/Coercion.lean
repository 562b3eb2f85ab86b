/-
Strings that are taken for numbers.

Scripts read a string as a number in arithmetic, and fields that hold a double read a string as one.
The two readers are different.  What both read is the same double, but for the sign of a zero; the
first alone knows hexadecimal numerals, and the second alone the words for infinity and
not-a-number and white space beyond ASCII (`double_coercion`).

What a reader has read of a numeral is ASCII (`Takes`).  So a string that is not can be a numeral
between blanks only, and blanks of ASCII are the same to both readers.
-/
import LuaConfig.Lua.Machine
import LuaConfig.Proofs.Lua.Octets
import LuaConfig.Proofs.Script.Number

namespace LuaConfig

open Lua Decimal

namespace Coercion

open Lua.Numeral
open Nat (ofDigitChars)

/-! ### What is read of a text -/

/-- Characters of ASCII have been read from the head of a text, up to its rest. -/
def Takes (text rest : List Char) : Prop :=
  ∃ front, text = front ++ rest ∧ ∀ c ∈ front, c.toNat < 128

theorem Takes.refl (text : List Char) : Takes text text := ⟨[], rfl, by simp⟩

theorem Takes.cons {c : Char} {text rest : List Char} (hc : c.toNat < 128) (h : Takes text rest) :
    Takes (c :: text) rest := by
  obtain ⟨front, rfl, hfront⟩ := h
  exact ⟨c :: front, rfl, List.forall_mem_cons.mpr ⟨hc, hfront⟩⟩

theorem Takes.trans {text middle rest : List Char} (h : Takes text middle)
    (h' : Takes middle rest) : Takes text rest := by
  obtain ⟨front, rfl, hfront⟩ := h
  obtain ⟨front', rfl, hfront'⟩ := h'
  refine ⟨front ++ front', (List.append_assoc _ _ _).symm, fun c hc => ?_⟩
  exact (List.mem_append.mp hc).elim (hfront c) (hfront' c)

theorem Takes.ascii {text : List Char} (h : Takes text []) : ∀ c ∈ text, c.toNat < 128 := by
  obtain ⟨front, rfl, hfront⟩ := h
  rwa [List.append_nil]

/-- A text is digits, and a rest that begins with none. -/
theorem exists_digits (text : List Char) :
    ∃ ds rest, text = ds ++ rest ∧ Digits ds ∧ NoDigit rest := by
  refine ⟨text.takeWhile Char.isDigit, text.dropWhile Char.isDigit,
    List.takeWhile_append_dropWhile.symm, fun c hc => List.mem_takeWhile_imp hc, fun c hc => ?_⟩
  have := List.head?_dropWhile_not Char.isDigit text
  rw [hc] at this
  simpa using this

theorem takes_scanDigits (n count : Nat) (text : List Char) :
    Takes text (scanDigits n count text).2.2 := by
  obtain ⟨ds, rest, rfl, hd, hr⟩ := exists_digits text
  rw [scanDigits_append hd hr]
  exact ⟨ds, rfl, fun c hc => (isDigit_range (hd c hc)).2.trans_lt (by decide)⟩

theorem takes_scanSign (text : List Char) : Takes text (scanSign text).2 := by
  unfold scanSign
  split
  · exact .cons (by decide) (.refl _)
  · exact .cons (by decide) (.refl _)
  · exact .refl _

theorem takes_scanExponent (text : List Char) : Takes text (scanExponent text).2 := by
  unfold scanExponent
  split
  · next c rest =>
    split
    · next he =>
      have hc : c.toNat < 128 := by rcases he with rfl | rfl <;> decide
      dsimp only
      split
      · exact .refl _
      · exact .cons hc ((takes_scanSign rest).trans (takes_scanDigits 0 0 _))
    · exact .refl _
  · exact .refl _

/-- What follows the whole part of a numeral. -/
def scanFraction (whole : Nat) : List Char → Nat × Nat × List Char
  | '.' :: rest => scanDigits whole 0 rest
  | rest => (whole, 0, rest)

theorem takes_scanFraction (whole : Nat) (text : List Char) :
    Takes text (scanFraction whole text).2.2 := by
  unfold scanFraction
  split
  · exact .cons (by decide) (takes_scanDigits _ 0 _)
  · exact .refl _

theorem scanDecimal_eq (text : List Char) :
    scanDecimal? text =
      let whole := scanDigits 0 0 text
      let fraction := scanFraction whole.1 whole.2.2
      let exponent := scanExponent fraction.2.2
      if whole.2.1 + fraction.2.1 = 0 then none
      else some (⟨fraction.1, exponent.1 - fraction.2.1⟩, exponent.2) := rfl

theorem takes_scanDecimal {text left : List Char} {d : Scaled}
    (h : scanDecimal? text = some (d, left)) : Takes text left := by
  rw [scanDecimal_eq] at h
  dsimp only at h
  split at h
  · cases h
  · obtain ⟨-, rfl⟩ := Prod.mk.inj (Option.some.inj h)
    exact (takes_scanDigits 0 0 text).trans
      ((takes_scanFraction _ _).trans (takes_scanExponent _))

theorem lt_of_hexDigit {c : Char} {d : Nat} (h : hexDigit? c = some d) : c.toNat < 128 := by
  have hle {a z : Char} (hz : z.toNat < 128) (hc : a ≤ c ∧ c ≤ z) : c.toNat < 128 :=
    lt_of_le_of_lt (Char.le_def.mp hc.2) hz
  unfold hexDigit? at h
  split at h
  · next hc => exact hle (by decide) hc
  split at h
  · next hc => exact hle (by decide) hc
  split at h
  · next hc => exact hle (by decide) hc
  · cases h

theorem takes_scanHex (n count : Nat) (text : List Char) :
    Takes text (scanHex n count text).2.2 := by
  induction text generalizing n count with
  | nil => exact .refl _
  | cons c rest ih =>
    unfold scanHex
    split
    · next d hd => exact .cons (lt_of_hexDigit hd) (ih _ _)
    · exact .refl _

theorem takes_binaryExponent {text : List Char} {e : Int} (h : binaryExponent? text = some e) :
    Takes text [] := by
  unfold binaryExponent? at h
  split at h
  · exact .refl _
  · next c rest =>
    split at h
    · next hp =>
      have hc : c.toNat < 128 := by rcases hp with rfl | rfl <;> decide
      have hdigits := takes_scanDigits 0 0 (scanSign rest).2
      dsimp only at h
      split at h
      · next heq =>
        rw [heq] at hdigits
        exact .cons hc ((takes_scanSign rest).trans hdigits)
      · cases h
    · cases h

theorem takes_hexadecimal {negative : Bool} {text : List Char} {n : Number}
    (h : hexadecimal? negative text = some n) : Takes text [] := by
  have hwhole := takes_scanHex 0 0 text
  unfold hexadecimal? at h
  dsimp only at h
  split at h
  · next heq => rwa [heq] at hwhole
  · next c after heq =>
    rw [heq] at hwhole
    refine hwhole.trans ?_
    -- digits behind the point, or an exponent at once
    by_cases hpoint : c = '.'
    · simp only [if_pos hpoint] at h
      split at h
      · cases h
      · obtain ⟨e, he, -⟩ := Option.map_eq_some_iff.mp h
        exact .cons (hpoint ▸ by decide) ((takes_scanHex _ 0 after).trans (takes_binaryExponent he))
    · simp only [if_neg hpoint] at h
      split at h
      · cases h
      · obtain ⟨e, he, -⟩ := Option.map_eq_some_iff.mp h
        exact heq ▸ takes_binaryExponent he

theorem takes_decimal {negative : Bool} {text : List Char} {n : Number}
    (h : decimal? negative text = some n) : Takes text [] := by
  have hdigits := takes_scanDigits 0 0 text
  unfold decimal? at h
  dsimp only at h
  split at h
  · next heq => rwa [heq] at hdigits
  · split at h
    · next hd => exact takes_scanDecimal hd
    · cases h

/-! ### Blanks at the ends -/

theorem mem_dropWhile_or {p : Char → Bool} {text : List Char} {c : Char} (hc : c ∈ text) :
    p c = true ∨ c ∈ text.dropWhile p := by
  rw [← List.takeWhile_append_dropWhile (p := p) (l := text)] at hc
  exact (List.mem_append.mp hc).imp_left List.mem_takeWhile_imp

/-- What is taken from the ends of a text are blanks. -/
theorem mem_trim_or {p : Char → Bool} {text : List Char} {c : Char} (hc : c ∈ text) :
    p c = true ∨ c ∈ ((text.dropWhile p).reverse.dropWhile p).reverse := by
  rcases mem_dropWhile_or (p := p) hc with h | h
  · exact Or.inl h
  · exact (mem_dropWhile_or (List.mem_reverse.mpr h)).imp_right List.mem_reverse.mpr

theorem dropWhile_congr {p q : Char → Bool} {text : List Char} (h : ∀ c ∈ text, p c = q c) :
    text.dropWhile p = text.dropWhile q := by
  induction text with
  | nil => rfl
  | cons c rest ih =>
    rw [List.forall_mem_cons] at h
    rw [List.dropWhile_cons, List.dropWhile_cons, h.1, ih h.2]

theorem isSpace_iff (c : Char) :
    isSpace c = true ↔ c.toNat = 32 ∨ (9 ≤ c.toNat ∧ c.toNat ≤ 13) := by
  have hspace : c = ' ' ↔ c.toNat = 32 :=
    ⟨fun h => h ▸ rfl, fun h => Char.toNat_inj.mp h⟩
  simp only [isSpace, hspace, decide_eq_true_eq]

/-- In ASCII, the blanks are those that scripts know. -/
theorem isBlank_of_ascii {c : Char} (hc : c.toNat < 128) : Text.isBlank c = isSpace c := by
  rw [Bool.eq_iff_iff, isSpace_iff, Text.isBlank, decide_eq_true_eq]
  omega

theorem trim_of_ascii {text : List Char} (h : ∀ c ∈ text, c.toNat < 128) :
    Text.trim text = Numeral.trim text := by
  have hblank : ∀ c ∈ text, Text.isBlank c = isSpace c := fun c hc => isBlank_of_ascii (h c hc)
  rw [Text.trim, Numeral.trim, dropWhile_congr hblank]
  congr 1
  refine dropWhile_congr fun c hc => hblank c ?_
  exact (List.dropWhile_sublist _).subset (List.mem_reverse.mp hc)

/-! ### What is read is ASCII -/

theorem ascii_of_ofChars {text : List Char} {n : Number} (h : ofChars? text = some n) :
    ∀ c ∈ text, c.toNat < 128 := by
  have hsign := takes_scanSign (Numeral.trim text)
  have htrimmed : Takes (Numeral.trim text) [] := by
    unfold ofChars? at h
    split at h
    · next negative x rest heq =>
      rw [heq] at hsign
      split at h
      · next hx =>
        have hlt : x.toNat < 128 := by rcases hx with rfl | rfl <;> decide
        exact hsign.trans (.cons (by decide) (.cons hlt (takes_hexadecimal h)))
      · exact hsign.trans (takes_decimal h)
    · next heq =>
      rw [heq] at hsign
      exact hsign.trans (takes_decimal h)
  -- the blanks that have been trimmed are those of ASCII
  intro c hc
  rcases mem_trim_or (p := isSpace) hc with hspace | hmem
  · rw [isSpace_iff] at hspace
    omega
  · exact htrimmed.ascii c hmem

/-- A word for infinity or for not-a-number, in either case. -/
def IsWord (text : List Char) : Prop :=
  text.map Char.toLower ∈
    [['i', 'n', 'f'], ['i', 'n', 'f', 'i', 'n', 'i', 't', 'y'], ['n', 'a', 'n']]

theorem special_eq (negative : Bool) (text : List Char) :
    special? negative text =
      if text.map Char.toLower = ['i', 'n', 'f'] ∨
          text.map Char.toLower = ['i', 'n', 'f', 'i', 'n', 'i', 't', 'y'] then
        some (ofMagnitudeBits negative infinityBits)
      else if text.map Char.toLower = ['n', 'a', 'n'] then
        some (ofMagnitudeBits negative (infinityBits + 2 ^ 51))
      else none := by
  have hword (word : List Char) (name : String) (hname : name = String.ofList word) :
      String.ofList (text.map Char.toLower) = name ↔ text.map Char.toLower = word := by
    rw [hname, String.ofList_inj]
  simp only [special?, hword ['i', 'n', 'f'] "inf" rfl, hword ['n', 'a', 'n'] "nan" rfl,
    hword ['i', 'n', 'f', 'i', 'n', 'i', 't', 'y'] "infinity" rfl]

theorem isSome_special_iff (negative : Bool) (text : List Char) :
    (special? negative text).isSome ↔ IsWord text := by
  rw [special_eq, IsWord]
  split
  · next h => simpa [h] using h.elim (fun h => by simp [h]) fun h => by simp [h]
  split
  · next h => simp [h]
  · next h h' => simp [not_or.mp h, h']

theorem lt_of_toLower {c : Char} (h : c.toLower.toNat < 128) : c.toNat < 128 := by
  unfold Char.toLower at h
  split at h
  · next hupper =>
    have : c.val ≤ 'Z'.val := hupper.2
    exact lt_of_le_of_lt (UInt32.le_iff_toNat_le.mp this) (by decide)
  · exact h

theorem IsWord.toLower_mem {text : List Char} (h : IsWord text) {c : Char} (hc : c ∈ text) :
    c.toLower ∈ ['i', 'n', 'f', 't', 'y', 'a'] := by
  have hmem : c.toLower ∈ text.map Char.toLower := List.mem_map_of_mem hc
  simp only [IsWord, List.mem_cons, List.not_mem_nil, or_false] at h
  rcases h with h | h | h <;>
  · rw [h] at hmem
    revert hmem
    generalize c.toLower = d
    simp only [List.mem_cons, List.not_mem_nil, or_false]
    tauto

theorem IsWord.ascii {text : List Char} (h : IsWord text) : ∀ c ∈ text, c.toNat < 128 := by
  intro c hc
  have hascii : ∀ d ∈ ['i', 'n', 'f', 't', 'y', 'a'], d.toNat < 128 := by simp
  exact lt_of_toLower (hascii _ (h.toLower_mem hc))

theorem ascii_of_float {text : List Char} {x : Float} (h : float? text = some x) :
    ∀ c ∈ text, c.toNat < 128 := by
  refine Takes.ascii ((takes_scanSign text).trans ?_)
  unfold float? at h
  dsimp only at h
  split at h
  · next d hd => exact takes_scanDecimal hd
  · cases h
  · have hword := (isSome_special_iff _ _).mp (Option.isSome_of_eq_some h)
    exact ⟨_, (List.append_nil _).symm, hword.ascii⟩

/-! ### Texts without blanks at their ends -/

/-- A text that begins like a hexadecimal numeral. -/
def IsMarked (text : List Char) : Prop :=
  ∃ negative x rest, scanSign text = (negative, '0' :: x :: rest) ∧ (x = 'x' ∨ x = 'X')

/-- One double, save that the zero with a minus sign is an integer to scripts. -/
def SameDouble (x : Float) (n : Number) : Prop :=
  n.toFloat = x ∨ n = .int 0 ∧ Script.isNegativeZero x

theorem scanDecimal_none {c : Char} {rest : List Char} (hdigit : ¬ c.isDigit) (hpoint : c ≠ '.') :
    scanDecimal? (c :: rest) = none := by
  have hdigits : scanDigits 0 0 (c :: rest) = (0, 0, c :: rest) := by
    simp [scanDigits, digit?_of_not_isDigit hdigit]
  have hfraction : scanFraction 0 (c :: rest) = (0, 0, c :: rest) := by
    unfold scanFraction
    split
    · next heq => exact absurd (List.cons.inj heq).1 hpoint
    · rfl
  rw [scanDecimal_eq, hdigits]
  dsimp only
  rw [hfraction]
  rfl

theorem toLower_of_isDigit {c : Char} (h : c.isDigit) : c.toLower = c := by
  have hrange := isDigit_range h
  unfold Char.toLower
  rw [dif_neg]
  intro hupper
  have hle : 'A'.toNat ≤ c.toNat := UInt32.le_iff_toNat_le.mp hupper.1
  exact absurd (hle.trans hrange.2) (by decide)

theorem IsWord.scanDecimal {text : List Char} (h : IsWord text) : scanDecimal? text = none := by
  cases text with
  | nil => rfl
  | cons c rest =>
    have hletter : ∀ d ∈ ['i', 'n', 'f', 't', 'y', 'a'], ¬ d.isDigit ∧ d ≠ '.' := by simp
    obtain ⟨hdigit, hpoint⟩ := hletter _ (h.toLower_mem List.mem_cons_self)
    refine scanDecimal_none (fun hc => hdigit ?_) fun hc => hpoint ?_
    · rwa [toLower_of_isDigit hc]
    · rw [hc]
      rfl

theorem ofDecimal_pos (negative : Bool) {n : Nat} (h : 0 < n) :
    ofDecimal negative n 0 = nearest negative n 1 := by
  have hsmall : ¬ (n = 0 ∨ ((Nat.log2 n : Int) + 1) * 302 / 1000 + 0 < -400) := by omega
  rw [ofDecimal, if_neg hsmall, if_neg (by decide)]
  simp

/-- A numeral without point and exponent that fits into 64 bits. -/
theorem sameDouble_int {negative : Bool} {n : Nat}
    (h : n ≤ if negative then 2 ^ 63 else 2 ^ 63 - 1) :
    SameDouble (ofDecimal negative n 0)
      (.int (Int64.ofInt (if negative then -(n : Int) else n))) := by
  -- only zero loses its sign as an integer
  rcases Nat.eq_zero_or_pos n with rfl | hpos
  · cases negative with
    | false => exact Or.inl rfl
    | true => exact Or.inr ⟨rfl, by decide⟩
  · left
    have hvalue : (Int64.ofInt (if negative then -(n : Int) else n)).toInt =
        if negative then -(n : Int) else n := by
      cases negative
      · exact toInt_ofInt (by simp only [Bool.false_eq_true, if_false] at h ⊢; omega)
          (by simp only [Bool.false_eq_true, if_false] at h ⊢; omega)
      · exact toInt_ofInt (by simp only [if_true] at h ⊢; omega)
          (by simp only [if_true] at h ⊢; omega)
    have hsign : decide ((if negative then -(n : Int) else n) < 0) = negative := by
      cases negative <;> simp [hpos]
    have habs : (if negative then -(n : Int) else (n : Int)).natAbs = n := by
      cases negative <;> simp
    rw [Number.toFloat, Value.toFloat, hvalue, Decimal.ofInt, hsign, habs,
      ofDecimal_pos negative hpos]

/-- Digits with something behind them are read as a double, if at all. -/
theorem decimal_append (negative : Bool) {ds rest : List Char} {c : Char} (hd : Digits ds)
    (hr : NoDigit (c :: rest)) :
    decimal? negative (ds ++ c :: rest) =
      match scanDecimal? (ds ++ c :: rest) with
      | some (d, []) => some (.float (ofDecimal negative d.digits d.exponent))
      | _ => none := by
  simp only [decimal?, scanDigits_append hd hr]
  split
  · next heq => simp at heq
  · rfl

theorem decimal_digits (negative : Bool) {ds : List Char} (hne : ds ≠ []) (hd : Digits ds) :
    decimal? negative ds =
      let n := ofDigitChars 10 ds 0
      if n ≤ if negative then 2 ^ 63 else 2 ^ 63 - 1 then
        some (.int (Int64.ofInt (if negative then -(n : Int) else n)))
      else some (.float (ofDecimal negative n 0)) := by
  obtain ⟨k, hk⟩ := Nat.exists_eq_succ_of_ne_zero (List.length_pos_iff.mpr hne).ne'
  simp only [decimal?, scanDigits_all hd, Nat.zero_add, hk]

/-- A decimal numeral is read as an integer or a double, and nothing else is read. -/
theorem decimal_spec (negative : Bool) (text : List Char) :
    match scanDecimal? text with
    | some (d, []) => ∃ n, decimal? negative text = some n ∧
        SameDouble (ofDecimal negative d.digits d.exponent) n
    | _ => decimal? negative text = none := by
  obtain ⟨ds, rest, rfl, hd, hr⟩ := exists_digits text
  -- digits alone are an integer if there is one; with anything behind them there is none
  cases rest with
  | nil =>
    rw [List.append_nil]
    rcases eq_or_ne ds [] with rfl | hne
    · rfl
    · have hlength : ¬ (0 + ds.length + 0 = 0) := by
        have := List.length_pos_iff.mpr hne
        omega
      have hscan : scanDecimal? ds = some (⟨ofDigitChars 10 ds 0, 0⟩, []) := by
        rw [scanDecimal_eq, scanDigits_all hd]
        exact if_neg hlength
      rw [hscan, decimal_digits negative hne hd]
      by_cases hle : ofDigitChars 10 ds 0 ≤ if negative then 2 ^ 63 else 2 ^ 63 - 1
      · exact ⟨_, if_pos hle, sameDouble_int hle⟩
      · exact ⟨_, if_neg hle, Or.inl rfl⟩
  | cons c rest =>
    rw [decimal_append negative hd hr]
    rcases scanDecimal? (ds ++ c :: rest) with _ | ⟨d, _ | ⟨c', left⟩⟩
    · rfl
    · exact ⟨_, rfl, Or.inl rfl⟩
    · rfl

theorem float_of_marked {text : List Char} (h : IsMarked text) : float? text = none := by
  obtain ⟨negative, x, rest, hsign, hx⟩ := h
  have hscan : scanDecimal? ('0' :: x :: rest) = some (⟨0, 0⟩, x :: rest) := by
    rcases hx with rfl | rfl <;> rfl
  rw [float?, hsign]
  dsimp only
  rw [hscan]

theorem isSome_float_of_word {text : List Char} (h : IsWord (scanSign text).2) :
    (float? text).isSome := by
  rw [float?]
  dsimp only
  rw [h.scanDecimal]
  exact (isSome_special_iff _ _).mpr h

theorem ofChars_of_not_marked {text : List Char} (h : ¬ IsMarked (Numeral.trim text)) :
    ofChars? text =
      decimal? (scanSign (Numeral.trim text)).1 (scanSign (Numeral.trim text)).2 := by
  unfold ofChars?
  split
  · next negative x rest heq =>
    rw [if_neg fun hx => h ⟨negative, x, rest, heq, hx⟩, heq]
  · next heq => rw [heq]

/-- The two readers of a text that has blanks at its ends or none. -/
theorem compare_readers (text : List Char) :
    (∀ x n, float? (Numeral.trim text) = some x → ofChars? text = some n → SameDouble x n) ∧
    (∀ n, ofChars? text = some n →
      (float? (Numeral.trim text) = none ↔ IsMarked (Numeral.trim text))) ∧
    (∀ x, float? (Numeral.trim text) = some x →
      (ofChars? text = none ↔ IsWord (scanSign (Numeral.trim text)).2)) := by
  by_cases hmarked : IsMarked (Numeral.trim text)
  · have hfloat := float_of_marked hmarked
    refine ⟨fun x n hx _ => ?_, fun n _ => iff_of_true hfloat hmarked, fun x hx => ?_⟩ <;>
      exact absurd (hfloat.symm.trans hx) (Option.some_ne_none x).symm
  rw [ofChars_of_not_marked hmarked, float?]
  rcases scanSign (Numeral.trim text) with ⟨negative, rest⟩
  have hdecimal := decimal_spec negative rest
  dsimp only
  cases hscan : scanDecimal? rest with
  | none =>
    -- nothing but a word is read here, and that by one reader only
    rw [hscan] at hdecimal
    refine ⟨fun x n _ hn => ?_, fun n hn => ?_, fun x hx => iff_of_true hdecimal ?_⟩
    · exact absurd (hdecimal.symm.trans hn) (Option.some_ne_none n).symm
    · exact absurd (hdecimal.symm.trans hn) (Option.some_ne_none n).symm
    · exact (isSome_special_iff negative rest).mp (Option.isSome_of_eq_some hx)
  | some read =>
    obtain ⟨d, left⟩ := read
    rw [hscan] at hdecimal
    cases left with
    | nil =>
      obtain ⟨n, hn, hsame⟩ := hdecimal
      have hword : ¬ IsWord rest := fun h => by
        rw [h.scanDecimal] at hscan
        cases hscan
      rw [hn]
      refine ⟨fun x n' hx hn' => ?_, fun n' _ => iff_of_false (by simp) hmarked,
        fun x _ => iff_of_false (by simp) hword⟩
      rwa [← Option.some.inj hx, ← Option.some.inj hn']
    | cons c left =>
      -- what is left over makes it no numeral
      refine ⟨fun x n hx _ => ?_, fun n hn => ?_, fun x hx => ?_⟩
      · exact absurd hx (Option.some_ne_none x).symm
      · exact absurd (Eq.trans hdecimal.symm hn) (Option.some_ne_none n).symm
      · exact absurd hx (Option.some_ne_none x).symm

end Coercion

/-! ### Strings -/

open Coercion

/-- A string that begins like a hexadecimal numeral, behind blanks and a sign. -/
def IsHexadecimal (s : Octets) : Prop := IsMarked (Numeral.trim (Numeral.chars s.toList))

/-- A string that is a word for infinity or for not-a-number, between blanks and behind a sign. -/
def IsSpecialWord (s : Octets) : Prop :=
  ∃ text, Value.trimmed? s = some text ∧ IsWord (scanSign text).2

/-- A string that has a blank which scripts do not know. -/
def HasForeignBlank (s : Octets) : Prop :=
  ∃ text, String.fromUTF8? s = some text ∧
    ∃ c ∈ text.toList, Text.isBlank c ∧ ¬ Numeral.isSpace c

section

variable {s : Octets}

theorem exists_text_of_number {n : Number} (h : (Value.str s).number? = some n) :
    ∃ text : String, (∀ c ∈ text.toList, c.toNat < 128) ∧ s = Octets.ofString text := by
  have hascii := ascii_of_ofChars h
  exact ⟨_, by rwa [String.toList_ofList], Octets.eq_ofString_of_ascii hascii⟩

theorem exists_text_of_double {x : Float} (h : (Value.str s).double? = some x) :
    ∃ text : String, s = Octets.ofString text ∧ float? (Text.trim text.toList) = some x := by
  obtain ⟨trimmed, htrimmed, hfloat⟩ := Option.bind_eq_some_iff.mp h
  obtain ⟨text, htext, rfl⟩ := Option.map_eq_some_iff.mp htrimmed
  exact ⟨text, Octets.eq_ofString_of_fromUTF8 htext, hfloat⟩

theorem trimmed_ofString (text : String) :
    Value.trimmed? (Octets.ofString text) = some (Text.trim text.toList) := by
  rw [Value.trimmed?, Octets.fromUTF8_ofString, Option.map_some]

theorem double_ofString (text : String) :
    (Value.str (Octets.ofString text)).double? = float? (Text.trim text.toList) := by
  rw [Value.double?, trimmed_ofString, Option.bind_some]

theorem isSome_double_of_word (h : IsSpecialWord s) : (Value.str s).double?.isSome := by
  obtain ⟨text, htext, hword⟩ := h
  rw [Value.double?, htext]
  exact isSome_float_of_word hword

/-- The two readers of a string of ASCII. -/
theorem compare_ascii {text : String} (h : ∀ c ∈ text.toList, c.toNat < 128) :
    let s := Octets.ofString text
    (∀ x n, (Value.str s).double? = some x → (Value.str s).number? = some n → SameDouble x n) ∧
    (∀ n, (Value.str s).number? = some n → ((Value.str s).double? = none ↔ IsHexadecimal s)) ∧
    (∀ x, (Value.str s).double? = some x → ((Value.str s).number? = none ↔ IsSpecialWord s)) := by
  intro s
  have hchars : Numeral.chars s.toList = text.toList := by
    rw [Octets.toList_ofString, Octets.chars_encoded h]
  have hnumber : (Value.str s).number? = Numeral.ofChars? text.toList :=
    congrArg Numeral.ofChars? hchars
  have hword : IsSpecialWord s ↔ IsWord (scanSign (Numeral.trim text.toList)).2 := by
    rw [IsSpecialWord, trimmed_ofString, trim_of_ascii h]
    simp only [Option.some_inj, exists_eq_left']
  rw [hnumber, double_ofString, trim_of_ascii h, IsHexadecimal, hchars, hword]
  exact compare_readers text.toList

theorem no_foreignBlank_of_ascii {text : String} (h : ∀ c ∈ text.toList, c.toNat < 128) :
    ¬ HasForeignBlank (Octets.ofString text) := by
  rintro ⟨text', htext, c, hc, hblank, hspace⟩
  rw [Octets.fromUTF8_ofString] at htext
  obtain rfl := Option.some.inj htext
  rw [isBlank_of_ascii (h c hc)] at hblank
  exact hspace hblank

/-- A string that is read as a double, but is not of ASCII, has a blank beyond it. -/
theorem foreignBlank_of_double {text : String} {c : Char} (hc : c ∈ text.toList)
    (hbeyond : 128 ≤ c.toNat) {x : Float} (h : float? (Text.trim text.toList) = some x) :
    HasForeignBlank (Octets.ofString text) := by
  refine ⟨text, Octets.fromUTF8_ofString text, c, hc, ?_, ?_⟩
  · rcases mem_trim_or (p := Text.isBlank) hc with hblank | hmem
    · exact hblank
    · exact absurd (ascii_of_float h c hmem) (by omega)
  · rw [isSpace_iff]
    omega

end

/-- Fields that hold a double take strings for numbers, and so do scripts.  What both take a string
for is the same double, save that the zero with a minus sign may be the integer zero in a script.  A
number of a script is taken for no double exactly if it is hexadecimal; a double is taken for no
number by a script exactly if it is a word, as every word is, or has a blank at its ends that
scripts do not know. -/
theorem double_coercion (s : Octets) :
    (∀ x n, (Value.str s).double? = some x → (Value.str s).number? = some n →
      n.toFloat = x ∨ n = .int 0 ∧ Script.isNegativeZero x) ∧
    (∀ n, (Value.str s).number? = some n → ((Value.str s).double? = none ↔ IsHexadecimal s)) ∧
    (∀ x, (Value.str s).double? = some x →
      ((Value.str s).number? = none ↔ IsSpecialWord s ∨ HasForeignBlank s)) ∧
    (IsSpecialWord s → (Value.str s).double?.isSome) ∧
    ∀ σ, (Builtin.base .tonumber).run [.str s] σ =
      .done [((Value.str s).number?.map Number.toValue).getD .nil] σ := by
  refine ⟨fun x n hx hn => ?_, fun n hn => ?_, fun x hx => ?_, isSome_double_of_word,
    fun σ => rfl⟩
  · obtain ⟨text, hascii, rfl⟩ := exists_text_of_number hn
    exact (compare_ascii hascii).1 x n hx hn
  · obtain ⟨text, hascii, rfl⟩ := exists_text_of_number hn
    exact (compare_ascii hascii).2.1 n hn
  · obtain ⟨text, rfl, hfloat⟩ := exists_text_of_double hx
    by_cases hascii : ∀ c ∈ text.toList, c.toNat < 128
    · rw [(compare_ascii hascii).2.2 x hx, or_iff_left (no_foreignBlank_of_ascii hascii)]
    · obtain ⟨c, hc, hbeyond⟩ : ∃ c ∈ text.toList, 128 ≤ c.toNat := by
        simpa only [not_forall, not_lt, exists_prop] using hascii
      refine iff_of_true ?_ (Or.inr (foreignBlank_of_double hc hbeyond hfloat))
      by_contra hnumber
      obtain ⟨n, hn⟩ := Option.ne_none_iff_exists'.mp hnumber
      obtain ⟨text', hascii', heq⟩ := exists_text_of_number hn
      exact hascii (Octets.ofString_inj heq ▸ hascii')

/-- A hexadecimal numeral is the number sixteen to a script, and no double. -/
theorem double_coercion_hexadecimal :
    ¬ ∀ (s : Octets) (n : Number), (Value.str s).number? = some n →
      (Value.str s).double? = some n.toFloat := by
  intro hall
  have hnumber : (Value.str (Octets.ofString "0x10")).number? = some (.int 16) := by
    decide +kernel
  have hdouble : (Value.str (Octets.ofString "0x10")).double? = none := by
    decide +kernel
  have hsome := hall _ _ hnumber
  rw [hdouble] at hsome
  cases hsome

end LuaConfig
