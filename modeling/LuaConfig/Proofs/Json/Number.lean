/-
Numbers and their text.

`NumberText` is the grammar of JSON's numbers, as far as they are written.  A text of this grammar
is read the same way whatever follows it (`readNumber_text`) and can be passed over
(`skipNumber_text`).  Integers and finite doubles have such texts (`numberText_repr`,
`numberText_floatText`), and integers of 64 bits are read back from them (`readNumber_repr`).  The
reader rounds more than once, so whether a double is read back depends on the double (`ReadsBack`).
-/
import LuaConfig.Json.Codec
import LuaConfig.Proofs.Decimal.Plain
import LuaConfig.Proofs.Json.Layout

namespace LuaConfig

/-- Is the double a number, and not infinite? -/
def Decimal.Binary64.isFinite : Decimal.Binary64 → Bool
  | finite .. => true
  | _ => false

namespace Json

open Decimal
open Nat (ofDigitChars)

-- powers are the built-in ones
attribute [local instance (2000)] instPowNat

/-! ### The grammar -/

/-- Digits before the point: a leading zero stands alone. -/
inductive Whole : List Char → Prop
  | zero : Whole ['0']
  | digits {c : Char} {ds : List Char} (nonzero : c ≠ '0') (digits : Digits (c :: ds)) :
      Whole (c :: ds)

/-- A point and the digits after it, or nothing. -/
inductive Fraction : List Char → Prop
  | none : Fraction []
  | point {c : Char} {ds : List Char} (digits : Digits (c :: ds)) : Fraction ('.' :: c :: ds)

/-- An exponent with its sign, or nothing. -/
inductive Exponent : List Char → Prop
  | none : Exponent []
  | signed {sign c : Char} {ds : List Char} (sign_eq : sign = '-' ∨ sign = '+')
      (digits : Digits (c :: ds)) : Exponent ('e' :: sign :: c :: ds)

/-- The text of a number without sign. -/
inductive Unsigned : List Char → Prop
  | mk {ds fs es : List Char} (whole : Whole ds) (fraction : Fraction fs)
      (exponent : Exponent es) : Unsigned (ds ++ (fs ++ es))

/-- The text of a number. -/
inductive NumberText : List Char → Prop
  | positive {text : List Char} (unsigned : Unsigned text) : NumberText text
  | negative {text : List Char} (unsigned : Unsigned text) : NumberText ('-' :: text)

/-- A number is no longer alone with more digits after it, unless it is zero. -/
theorem Whole.append {ds es : List Char} (h : Whole ds) (hzero : ds ≠ ['0']) (he : Digits es) :
    Whole (ds ++ es) := by
  cases h with
  | zero => exact absurd rfl hzero
  | digits hc hd => exact .digits hc (hd.append he)

theorem Whole.take {ds : List Char} (h : Whole ds) {n : Nat} (hn : 0 < n) : Whole (ds.take n) := by
  obtain ⟨n, rfl⟩ := Nat.exists_eq_succ_of_ne_zero hn.ne'
  cases h with
  | zero => simpa using Whole.zero
  | digits hc hd => exact .digits hc fun c h => hd c (List.mem_of_mem_take (i := n + 1) h)

theorem whole_toDigits (n : Nat) : Whole (Nat.toDigits 10 n) := by
  induction n using Nat.strongRecOn with
  | ind n ih =>
    rw [Nat.toDigits_eq_if (by decide)]
    split
    · interval_cases n
      · exact .zero
      all_goals exact .digits (by decide) (by simp [Digits])
    · have hne : Nat.toDigits 10 (n / 10) ≠ ['0'] := by
        intro h
        have hvalue := congrArg (ofDigitChars 10 · 0) h
        rw [Nat.ofDigitChars_ten_toDigits] at hvalue
        have : n / 10 = 0 := hvalue
        omega
      refine (ih (n / 10) (by omega)).append hne fun c hc => ?_
      obtain rfl := List.mem_singleton.mp hc
      have := digits_toDigits (n % 10)
      rw [Nat.toDigits_of_lt_base (by omega)] at this
      exact this _ List.mem_cons_self

theorem toDigits_ne_zero {n : Nat} (h : 0 < n) : Nat.toDigits 10 n ≠ ['0'] := by
  intro hzero
  have hvalue := congrArg (ofDigitChars 10 · 0) hzero
  rw [Nat.ofDigitChars_ten_toDigits] at hvalue
  exact h.ne' hvalue

/-! ### The texts of numbers -/

theorem unsigned_toDigits (n : Nat) : Unsigned (Nat.toDigits 10 n) := by
  simpa using Unsigned.mk (whole_toDigits n) .none .none

/-- The text of an integer. -/
theorem numberText_repr (n : Int) : NumberText (Int.repr n).toList := by
  cases n with
  | ofNat n =>
    rw [Int.repr, Nat.toList_repr]
    exact .positive (unsigned_toDigits n)
  | negSucc n =>
    simpa [Int.repr, Nat.toList_repr] using NumberText.negative (unsigned_toDigits (n + 1))

/-- The digits in front of the point and those after it. -/
theorem unsigned_withPoint (n : Nat) {places : Nat} (hplaces : 0 < places) :
    Unsigned (withPoint (Nat.repr n) places).toList := by
  have hwhole := whole_toDigits n
  have hdigits := digits_toDigits n
  rw [toList_withPoint, Nat.toList_repr]
  generalize Nat.toDigits 10 n = ds at hwhole hdigits
  dsimp only
  have hpoint : ∀ {fs : List Char}, Digits fs → fs.length = places → Fraction ('.' :: fs) := by
    intro fs hfs hlength
    cases fs with
    | nil => exact absurd hlength hplaces.ne
    | cons c fs => exact .point hfs
  -- either the digits go on both sides of the point, or all behind it with zeros in front
  rcases Nat.lt_or_ge places ds.length with hlt | hge
  · rw [Nat.sub_eq_zero_of_le hlt, List.replicate_zero, List.nil_append]
    have hfraction : Fraction ('.' :: ds.drop (ds.length - places)) :=
      hpoint (fun c hc => hdigits c (List.mem_of_mem_drop hc)) (by rw [List.length_drop]; omega)
    simpa using Unsigned.mk (hwhole.take (Nat.sub_pos_of_lt hlt)) hfraction .none
  · have hzeros : List.replicate (places + 1 - ds.length) '0' =
        '0' :: List.replicate (places - ds.length) '0' := by
      rw [Nat.sub_add_comm hge, List.replicate_succ]
    have hlength : (List.replicate (places - ds.length) '0' ++ ds).length = places := by
      rw [List.length_append, List.length_replicate]
      omega
    have hfraction := hpoint ((digits_zeros (places - ds.length)).append hdigits) hlength
    rw [hzeros, List.cons_append, List.length_cons, hlength, Nat.add_sub_cancel_left]
    simpa using Unsigned.mk .zero hfraction .none

/-- The first digit, the others after a point if there are any, and the exponent. -/
theorem unsigned_scientific (n : Nat) (sign : Char) (hsign : sign = '-' ∨ sign = '+') (e : Nat) :
    Unsigned ((Nat.toDigits 10 n).take 1 ++
      ((if ((Nat.toDigits 10 n).drop 1).isEmpty then [] else ['.']) ++ (Nat.toDigits 10 n).drop 1) ++
      ('e' :: sign :: Nat.toDigits 10 e)) := by
  have hwhole := (whole_toDigits n).take Nat.one_pos
  have hdigits : Digits ((Nat.toDigits 10 n).drop 1) :=
    fun c hc => digits_toDigits n c (List.mem_of_mem_drop hc)
  generalize (Nat.toDigits 10 n).drop 1 = fs at hdigits
  have hfraction : Fraction ((if fs.isEmpty then [] else ['.']) ++ fs) := by
    cases fs with
    | nil => exact .none
    | cons c fs => exact .point hdigits
  have hexponent : Exponent ('e' :: sign :: Nat.toDigits 10 e) := by
    have hdigits := digits_toDigits e
    cases hes : Nat.toDigits 10 e with
    | nil => exact absurd hes Nat.toDigits_ne_nil
    | cons c es => exact .signed hsign (hes ▸ hdigits)
  rw [List.append_assoc]
  exact .mk hwhole hfraction hexponent

theorem unsigned_decimalText {d : Decimal.Scaled} (hd : 0 < d.digits) :
    Unsigned (decimalText d).toList := by
  unfold decimalText
  dsimp only
  -- plain with `.0`, plain with a point, or with an exponent
  split
  · split
    · next hexponent =>
      have hzeros := (whole_toDigits d.digits).append (toDigits_ne_zero hd)
        (digits_zeros d.exponent.toNat)
      have hfraction : Fraction ['.', '0'] := .point (by simp [Digits])
      simpa [Scaled.positional, hexponent, zeros, Nat.toList_repr] using
        Unsigned.mk hzeros hfraction .none
    · next hexponent =>
      rw [Scaled.positional, if_neg hexponent]
      exact unsigned_withPoint d.digits (by omega)
  · generalize d.exponent + _ - 1 = lead
    have htext := unsigned_scientific d.digits (if lead < 0 then '-' else '+')
      (by split <;> simp) lead.natAbs
    convert htext using 1
    simp [Nat.toList_repr, apply_ite String.toList]
    split_ifs <;> rfl

/-- The text of a finite double. -/
theorem numberText_floatText {x : Float} (h : (Binary64.ofFloat x).isFinite) :
    NumberText (floatText x).toList := by
  unfold floatText
  cases hx : Binary64.ofFloat x with
  | nan => rw [hx] at h; cases h
  | infinite => rw [hx] at h; cases h
  | finite negative m q =>
    have hunsigned : Unsigned (if m = 0 then "0.0" else decimalText (shortest .even m q)).toList := by
      split
      · have hfraction : Fraction ['.', '0'] := .point (by simp [Digits])
        exact .mk .zero hfraction .none
      · next hm =>
        refine unsigned_decimalText (Nat.pos_of_ne_zero fun hzero => ?_)
        have hpos := (shortest_rounds .even q (Nat.pos_of_ne_zero hm)).pos (Nat.pos_of_ne_zero hm)
        rw [Scaled.value, hzero] at hpos
        simp at hpos
    cases negative with
    | false => exact .positive hunsigned
    | true =>
      show NumberText ("-" ++ _).toList
      rw [String.toList_append]
      exact .negative hunsigned

/-! ### What follows a number -/

/-- No character that stops a value belongs to a number. -/
theorem Stops.not_mem {rest : List Char} (h : Stops rest) :
    ∀ c ∈ rest.head?, ¬ c.isDigit ∧ c ≠ '.' ∧ c ≠ 'e' ∧ c ≠ 'E' := by
  intro c hc
  have hstop := h c hc
  simp only [isBlank, decide_eq_true_eq] at hstop
  rcases hstop with (rfl | rfl | rfl | rfl) | rfl | rfl | rfl <;> decide

theorem Stops.noDigit {rest : List Char} (h : Stops rest) : NoDigit rest :=
  fun c hc => (h.not_mem c hc).1

theorem Exponent.noDigit {es rest : List Char} (h : Exponent es) (hrest : Stops rest) :
    NoDigit (es ++ rest) := by
  cases h with
  | none => exact hrest.noDigit
  | signed _ _ =>
    rintro c ⟨⟩
    decide

theorem Fraction.noDigit {fs es rest : List Char} (h : Fraction fs) (he : Exponent es)
    (hrest : Stops rest) : NoDigit (fs ++ (es ++ rest)) := by
  cases h with
  | none => exact he.noDigit hrest
  | point _ =>
    rintro c ⟨⟩
    decide

/-! ### Reading -/

theorem digit?_head {rest : List Char} (h : NoDigit rest) : ∀ c ∈ rest.head?, digit? c = none :=
  fun c hc => digit?_of_not_isDigit (h c hc)

theorem readWhole_append {ds rest : List Char} (hd : Digits ds) (hrest : NoDigit rest)
    (significand dropped : Nat) :
    readWhole significand dropped (ds ++ rest) =
      ((readWhole significand dropped ds).1, (readWhole significand dropped ds).2.1, rest) := by
  induction ds generalizing significand dropped with
  | nil =>
    cases rest with
    | nil => rfl
    | cons c rest => simp [readWhole, digit?_head hrest c rfl]
  | cons c ds ih =>
    have hc := digit?_of_isDigit (hd c List.mem_cons_self)
    have htail : Digits ds := fun d h => hd d (List.mem_cons_of_mem c h)
    simp only [List.cons_append, readWhole, hc, ih htail]
    split <;> rfl

theorem readFraction_append {ds rest : List Char} (hd : Digits ds) (hrest : NoDigit rest)
    (significand places : Nat) (full : Bool) :
    readFraction significand places full (ds ++ rest) =
      ((readFraction significand places full ds).1, (readFraction significand places full ds).2.1,
        rest) := by
  induction ds generalizing significand places full with
  | nil =>
    cases rest with
    | nil => rfl
    | cons c rest => simp [readFraction, digit?_head hrest c rfl]
  | cons c ds ih =>
    have hc := digit?_of_isDigit (hd c List.mem_cons_self)
    have htail : Digits ds := fun d h => hd d (List.mem_cons_of_mem c h)
    simp only [List.cons_append, readFraction, hc, ih htail]
    split <;> rfl

theorem readExponent_append {sign c : Char} {ds : List Char} (hsign : sign = '-' ∨ sign = '+')
    (hd : Digits (c :: ds)) :
    ∃ n, ∀ rest, NoDigit rest → readExponent (sign :: c :: (ds ++ rest)) = .ok (n, rest) := by
  refine ⟨if sign = '-' then -(ofDigitChars 10 (c :: ds) 0 : Int) else ofDigitChars 10 (c :: ds) 0,
    fun rest hrest => ?_⟩
  have hscan := scanDigits_append hd hrest 0 0
  rw [List.cons_append] at hscan
  rcases hsign with rfl | rfl <;> simp [readExponent, scanSign, hscan]

/-- What a reader makes of a text, whatever follows it. -/
def ReadsAs {α : Type} (read : Read α) (text : List Char) (result : Except Fault α) : Prop :=
  ∀ rest, Stops rest → read (text ++ rest) = result.map (·, rest)

theorem bind_pair {α β : Type} (result : Except Fault α) (rest : β) :
    (result >>= fun a => .ok (a, rest)) = result.map (·, rest) := by
  cases result <;> rfl

theorem ok_bind {α β : Type} (a : α) (next : α → Except Fault β) :
    (Except.ok a >>= next) = next a := rfl

/-- The reader's result on the rest of a number is the same whatever follows. -/
theorem readAfterWhole_append (negative : Bool) (significand dropped : Nat) {fs es : List Char}
    (hf : Fraction fs) (he : Exponent es) :
    ∃ result, ReadsAs (readAfterWhole negative significand dropped) (fs ++ es) result := by
  -- a fraction or none, and an exponent or none; what is read first stops before what follows
  cases hf with
  | none =>
    cases he with
    | none =>
      refine ⟨if dropped = 0 then .ok (ofWhole negative significand)
        else ofParts negative significand dropped, fun rest hrest => ?_⟩
      cases rest with
      | nil => by_cases h : dropped = 0 <;> simp [readAfterWhole, h, bind_pair, Except.map]
      | cons c rest =>
        obtain ⟨-, h1, h2, h3⟩ := hrest.not_mem c rfl
        by_cases h : dropped = 0 <;> simp [readAfterWhole, h, h1, h2, h3, bind_pair]
    | signed hsign hd =>
      obtain ⟨n, hn⟩ := readExponent_append hsign hd
      refine ⟨ofParts negative significand (dropped + n), fun rest hrest => ?_⟩
      simp [readAfterWhole, hn rest hrest.noDigit, ok_bind, bind_pair]
  | @point c ds hd =>
    have hc := digit?_of_isDigit (hd c List.mem_cons_self)
    obtain ⟨whole, places, hread⟩ : ∃ whole places, ∀ rest, NoDigit rest →
        readFraction significand 0 false (c :: (ds ++ rest)) = (whole, places, rest) :=
      ⟨_, _, fun rest hrest => readFraction_append hd hrest significand 0 false⟩
    cases he with
    | none =>
      refine ⟨ofParts negative whole (dropped - places), fun rest hrest => ?_⟩
      cases rest with
      | nil =>
        have hall : readFraction significand 0 false (c :: ds) = (whole, places, []) := by
          simpa using hread [] noDigit_nil
        simp [readAfterWhole, hall, hc, bind_pair]
      | cons d rest =>
        obtain ⟨-, -, h2, h3⟩ := hrest.not_mem d rfl
        simp [readAfterWhole, hread _ hrest.noDigit, hc, h2, h3, bind_pair]
    | @signed sign e es hsign hes =>
      obtain ⟨n, hn⟩ := readExponent_append hsign hes
      refine ⟨ofParts negative whole (dropped - places + n), fun rest hrest => ?_⟩
      have hstop : NoDigit ('e' :: sign :: e :: (es ++ rest)) := by
        rintro c ⟨⟩
        decide
      simp [readAfterWhole, hread _ hstop, hc, hn rest hrest.noDigit, ok_bind, bind_pair]

/-- The digits before the point are read first. -/
theorem readNumber_whole {ds rest : List Char} (h : Whole ds) (hrest : NoDigit rest) :
    readNumber (ds ++ rest) =
        readAfterWhole false (readWhole 0 0 ds).1 (readWhole 0 0 ds).2.1 rest ∧
      readNumber ('-' :: (ds ++ rest)) =
        readAfterWhole true (readWhole 0 0 ds).1 (readWhole 0 0 ds).2.1 rest := by
  cases h with
  | zero =>
    cases rest with
    | nil => exact ⟨rfl, rfl⟩
    | cons d rest =>
      have hd := digit?_head hrest d rfl
      have hzero : readWhole 0 0 ['0'] = (0, 0, []) := by decide
      simp [readNumber, hd, hzero]
  | @digits c ds hc hd =>
    have hdigit := digit?_of_isDigit (hd c List.mem_cons_self)
    have hminus : c ≠ '-' := by
      rintro rfl
      exact absurd (hd '-' List.mem_cons_self) (by decide)
    have hwhole := readWhole_append hd hrest 0 0
    rw [List.cons_append] at hwhole
    simp [readNumber, hc, hdigit, hminus, hwhole]

/-- A number is read the same way whatever follows it. -/
theorem readNumber_text {text : List Char} (h : NumberText text) :
    ∃ result, ReadsAs readNumber text result := by
  cases h with
  | positive h =>
    obtain @⟨ds, fs, es, hw, hf, he⟩ := h
    obtain ⟨result, hresult⟩ :=
      readAfterWhole_append false (readWhole 0 0 ds).1 (readWhole 0 0 ds).2.1 hf he
    refine ⟨result, fun rest hrest => ?_⟩
    rw [← hresult rest hrest, List.append_assoc, List.append_assoc,
      (readNumber_whole hw (hf.noDigit he hrest)).1]
  | negative h =>
    obtain @⟨ds, fs, es, hw, hf, he⟩ := h
    obtain ⟨result, hresult⟩ :=
      readAfterWhole_append true (readWhole 0 0 ds).1 (readWhole 0 0 ds).2.1 hf he
    refine ⟨result, fun rest hrest => ?_⟩
    rw [← hresult rest hrest, List.cons_append, List.append_assoc, List.append_assoc,
      (readNumber_whole hw (hf.noDigit he hrest)).2]

/-! ### Integers -/

theorem le_ofDigitChars (ds : List Char) (n : Nat) : n ≤ ofDigitChars 10 ds n := by
  rw [Nat.ofDigitChars_eq_ofDigitChars_zero]
  exact (Nat.le_mul_of_pos_left n (by positivity)).trans (Nat.le_add_right _ _)

/-- No digit is dropped that fits. -/
theorem readWhole_of_le {ds : List Char} (hd : Digits ds) {n : Nat}
    (h : ofDigitChars 10 ds n ≤ maxSignificand) :
    readWhole n 0 ds = (ofDigitChars 10 ds n, 0, []) := by
  induction ds generalizing n with
  | nil => rfl
  | cons c ds ih =>
    have hc := digit?_of_isDigit (hd c List.mem_cons_self)
    rw [Nat.ofDigitChars_cons, Nat.mul_comm 10] at h
    have hle : n * 10 + (c.toNat - '0'.toNat) ≤ maxSignificand := (le_ofDigitChars ds _).trans h
    simp only [readWhole, hc, hle, and_self, if_true]
    rw [ih (fun d hd' => hd d (List.mem_cons_of_mem c hd')) h, Nat.ofDigitChars_cons,
      Nat.mul_comm 10]

theorem readWhole_toDigits {n : Nat} (h : n ≤ maxSignificand) :
    readWhole 0 0 (Nat.toDigits 10 n) = (n, 0, []) := by
  rw [readWhole_of_le (digits_toDigits n) (by rwa [Nat.ofDigitChars_ten_toDigits]),
    Nat.ofDigitChars_ten_toDigits]

theorem readAfterWhole_of_stops (negative : Bool) (significand : Nat) {rest : List Char}
    (h : Stops rest) :
    readAfterWhole negative significand 0 rest = .ok (ofWhole negative significand, rest) := by
  cases rest with
  | nil => rfl
  | cons c rest =>
    obtain ⟨-, h1, h2, h3⟩ := h.not_mem c rfl
    simp [readAfterWhole, h1, h2, h3, ok_bind]

/-- Integers of 64 bits are read back. -/
theorem readNumber_repr {n : Int} (hlow : -2 ^ (63 : Nat) ≤ n) (hhigh : n < 2 ^ (64 : Nat)) :
    ReadsAs readNumber (Int.repr n).toList (.ok (.integer n)) := by
  have hmax : maxSignificand = 2 ^ (64 : Nat) - 1 := rfl
  intro rest hrest
  cases n with
  | ofNat n =>
    rw [Int.ofNat_eq_natCast] at hhigh
    have hread := (readNumber_whole (whole_toDigits n) hrest.noDigit).1
    rw [readWhole_toDigits (by omega), readAfterWhole_of_stops false n hrest] at hread
    rw [Int.repr, Nat.toList_repr, hread]
    rfl
  | negSucc n =>
    have hread := (readNumber_whole (whole_toDigits (n + 1)) hrest.noDigit).2
    have hsize : ¬ (n + 1 = 0 ∨ 2 ^ (63 : Nat) < n + 1) := by omega
    rw [readWhole_toDigits (by omega), readAfterWhole_of_stops true (n + 1) hrest, ofWhole,
      if_neg (by decide), if_neg hsize] at hread
    have htext : (Int.repr (.negSucc n)).toList = '-' :: Nat.toDigits 10 (n + 1) := by
      simp [Int.repr, Nat.toList_repr]
    rw [htext, List.cons_append, hread]
    rfl

/-! ### Numbers that are passed over -/

theorem skipDigits_append {c : Char} {ds rest : List Char} (hd : Digits (c :: ds))
    (hrest : NoDigit rest) : skipDigits (c :: (ds ++ rest)) = .ok rest := by
  have hscan := scanDigits_append hd hrest 0 0
  rw [List.cons_append] at hscan
  simp [skipDigits, hscan]

theorem skipWhole_append {ds rest : List Char} (h : Whole ds) (hrest : NoDigit rest) :
    skipWhole (ds ++ rest) = .ok rest := by
  cases h with
  | zero =>
    cases rest with
    | nil => rfl
    | cons d rest => simp [skipWhole, digit?_head hrest d rfl]
  | @digits c ds hc hd =>
    have hskip := skipDigits_append hd hrest
    simp [skipWhole, hc, hskip]

theorem skipFraction_append {fs rest : List Char} (h : Fraction fs) (hdigit : NoDigit rest)
    (hpoint : ∀ c ∈ rest.head?, c ≠ '.') : skipFraction (fs ++ rest) = .ok rest := by
  cases h with
  | none =>
    cases rest with
    | nil => rfl
    | cons c rest => simp [skipFraction, hpoint c rfl]
  | point hd => exact skipDigits_append hd hdigit

theorem skipExponent_append {es rest : List Char} (h : Exponent es) (hrest : Stops rest) :
    skipExponent (es ++ rest) = .ok rest := by
  cases h with
  | none =>
    cases rest with
    | nil => rfl
    | cons c rest =>
      obtain ⟨-, -, h2, h3⟩ := hrest.not_mem c rfl
      simp [skipExponent, h2, h3]
  | signed hsign hd =>
    have hskip := skipDigits_append hd hrest.noDigit
    rcases hsign with rfl | rfl <;> exact hskip

theorem Exponent.no_point {es rest : List Char} (h : Exponent es) (hrest : Stops rest) :
    ∀ c ∈ (es ++ rest).head?, c ≠ '.' := by
  cases h with
  | none => exact fun c hc => (hrest.not_mem c hc).2.1
  | signed _ _ =>
    rintro c ⟨⟩
    decide

/-- A number without sign begins with a digit. -/
theorem Unsigned.exists_eq_cons {text : List Char} (h : Unsigned text) :
    ∃ c cs, text = c :: cs ∧ c.isDigit := by
  obtain ⟨hw, -, -⟩ := h
  cases hw with
  | zero => exact ⟨'0', _, rfl, rfl⟩
  | @digits c _ _ hd => exact ⟨c, _, rfl, hd c List.mem_cons_self⟩

/-- A number is passed over. -/
theorem skipNumber_text {text rest : List Char} (h : NumberText text) (hrest : Stops rest) :
    skipNumber (text ++ rest) = .ok rest := by
  have hunsigned : ∀ {text : List Char}, Unsigned text →
      (do skipExponent (← skipFraction (← skipWhole (text ++ rest)))) = .ok rest := by
    rintro _ ⟨hw, hf, he⟩
    simp only [List.append_assoc]
    rw [skipWhole_append hw (hf.noDigit he hrest), ok_bind,
      skipFraction_append hf (he.noDigit hrest) (he.no_point hrest), ok_bind,
      skipExponent_append he hrest]
  cases h with
  | positive h =>
    obtain ⟨c, cs, rfl, hc⟩ := h.exists_eq_cons
    have hminus : c ≠ '-' := by
      rintro rfl
      exact absurd hc (by decide)
    simpa [skipNumber, hminus] using hunsigned h
  | negative h => exact hunsigned h

/-! ### Doubles -/

/-- A number begins with a minus sign or a digit. -/
theorem NumberText.exists_eq_cons {text : List Char} (h : NumberText text) :
    ∃ c cs, text = c :: cs ∧ (c = '-' ∨ c.isDigit) := by
  cases h with
  | positive h =>
    obtain ⟨c, cs, rfl, hc⟩ := h.exists_eq_cons
    exact ⟨c, cs, rfl, .inr hc⟩
  | negative h => exact ⟨'-', _, rfl, .inl rfl⟩

theorem ne_of_number {c c' : Char} (h : c = '-' ∨ c.isDigit) (h' : ¬ (c' = '-' ∨ c'.isDigit)) :
    c ≠ c' :=
  fun heq => h' (heq ▸ h)

theorem startsNumber_of {c : Char} (h : c = '-' ∨ c.isDigit) : startsNumber c := by
  rcases h with rfl | h
  · rfl
  · simp [startsNumber, digit?_of_isDigit h]

theorem not_isBlank_of_number {c : Char} (h : c = '-' ∨ c.isDigit) : ¬ isBlank c := by
  rintro hblank
  simp only [isBlank, decide_eq_true_eq] at hblank
  rcases hblank with rfl | rfl | rfl | rfl <;> revert h <;> decide

theorem readAnyNumber_text {blanks text : List Char} (hblank : Blank blanks) (h : NumberText text)
    (rest : List Char) : readAnyNumber (blanks ++ (text ++ rest)) = readNumber (text ++ rest) := by
  obtain ⟨c, cs, rfl, hc⟩ := h.exists_eq_cons
  rw [readAnyNumber, List.cons_append, skipBlank_append_cons hblank (not_isBlank_of_number hc)]
  exact if_pos (startsNumber_of hc)

/-- The text of a double is read as that double. -/
def ReadsBack (x : Float) : Prop := Codec.number.parse (float x).compact = .ok x

/-- A finite double that is read back alone is read back whatever follows it. -/
theorem ReadsBack.readNumber {x : Float} (h : ReadsBack x) (hfinite : (Binary64.ofFloat x).isFinite) :
    ∃ n : Number, n.toFloat = x ∧ ReadsAs readNumber (floatText x).toList (.ok n) := by
  have htext := numberText_floatText hfinite
  obtain ⟨result, hresult⟩ := readNumber_text htext
  have halone : readFloat (floatText x).toList =
      result.map fun n => (n.toFloat, []) := by
    have hread := readAnyNumber_text blank_nil htext []
    rw [hresult [] stops_nil, List.append_nil, List.nil_append] at hread
    rw [readFloat, hread]
    cases result <;> rfl
  have hcompact : (float x).compact.toList = (floatText x).toList := by
    simp [compact, compactOnto, leafText]
  have hread : Codec.number.read maxDepth (floatText x).toList = readFloat (floatText x).toList := rfl
  rw [ReadsBack, Codec.parse, hcompact, hread, halone] at h
  cases result with
  | error fault => cases h
  | ok n => exact ⟨n, Except.ok.inj h, hresult⟩

end Json

end LuaConfig
