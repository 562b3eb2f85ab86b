/-
The lexemes of a text.

One round of the scan passes over a blank or a comment, ends the reading, or reads a token
(`round`).  Whichever it is, less of the text is left, so that rounds beyond the length of the text
make no difference (`listFrom_fuel`): a text has lexemes of its own (`lexemes`), and where it begins
with a token they are that token and the lexemes of the rest (`Begins.lexemes`).

A name that has been read stands in the text as it is (`scan_name`).
-/
import LuaConfig.Proofs.Lua.Token

namespace LuaConfig.Lua

open Octets

/-! ### Strings -/

/-- What has been read is a string or no token, and what is left stands at the end of the text. -/
structure Scan.IsString (s : Scan) (text : List UInt8) : Prop where
  token : (∃ octets, s.token = .string octets) ∨ s.token = .malformed
  suffix : s.rest <:+ text

theorem Scan.IsString.cons {s : Scan} {text : List UInt8} (h : s.IsString text) (b : UInt8) :
    s.IsString (b :: text) := ⟨h.token, h.suffix.trans (List.suffix_cons b text)⟩

theorem Quoted.isString_scan (quote : UInt8) (mode : Mode) (out : Octets) (line : Nat)
    (text : List UInt8) : (scan quote mode out line text).IsString text := by
  induction text generalizing mode out line with
  | nil => exact ⟨.inr rfl, List.suffix_rfl⟩
  | cons b text ih =>
    rw [scan]
    split
    · exact (ih _ _ _).cons b
    · exact ⟨.inl ⟨_, rfl⟩, List.suffix_cons b text⟩
    · exact ⟨.inr rfl, List.suffix_cons b text⟩

namespace Bracketed

theorem level_suffix {n level : Nat} {text rest : List UInt8}
    (h : level? n text = some (level, rest)) : rest <:+ text := by
  induction text generalizing n with
  | nil => cases h
  | cons b text ih =>
    rw [level?] at h
    split at h
    · exact (ih h).trans (List.suffix_cons b text)
    · split at h
      · cases h
        exact List.suffix_cons b _
      · cases h

theorem isString_scan (level : Nat) (mode : Mode) (out : Octets) (line : Nat)
    (text : List UInt8) : (scan level mode out line text).IsString text := by
  induction text generalizing mode out line with
  | nil => exact ⟨.inr rfl, List.suffix_rfl⟩
  | cons b text ih =>
    cases mode with
    | plain => exact (ih _ _ _).cons b
    | lineEnd a =>
      rw [scan]
      split
      · exact (ih _ _ _).cons b
      · exact (ih _ _ _).cons b
    | closing seen =>
      rw [scan]
      split
      · exact ⟨.inl ⟨_, rfl⟩, List.suffix_cons b text⟩
      · split
        · exact (ih _ _ _).cons b
        · exact (ih _ _ _).cons b

theorem isString_scanOpened (level line : Nat) (text : List UInt8) :
    (scanOpened level line text).IsString text := by
  cases text with
  | nil => exact ⟨.inr rfl, List.suffix_rfl⟩
  | cons b text =>
    rw [scanOpened]
    split
    · exact (isString_scan _ _ _ _ _).cons b
    · exact isString_scan _ _ _ _ _

end Bracketed

namespace Token

/-! ### One token -/

theorem scanSymbol_cases (line : Nat) (b : UInt8) (text : List UInt8) :
    (scanSymbol line (b :: text)).rest <:+ text ∧
      ∀ s, (scanSymbol line (b :: text)).token ≠ .name s := by
  have hspelling : ∀ p ∈ Symbol.spellings, p.1 ≠ [] := by decide
  unfold scanSymbol
  split
  · next sign rest h =>
    obtain ⟨p, hp, hfound⟩ := List.exists_of_findSome?_eq_some h
    dsimp only at hfound
    split at hfound
    · cases hfound
      obtain ⟨c, cs, hc⟩ := List.exists_cons_of_ne_nil (hspelling p hp)
      refine ⟨?_, by simp⟩
      rw [hc]
      exact List.drop_suffix cs.length text
    · cases hfound
  · exact ⟨List.suffix_rfl, by simp⟩

theorem exists_numeral_eq_cons {b : UInt8} (hb : isDigit b ∨ b = 46) (text : List UInt8) :
    ∃ octets, numeral (b :: text) = b :: octets := by
  obtain ⟨hmark, hdigit⟩ := numeral_classes b hb
  obtain ⟨octets, hoctets⟩ : ∃ octets, numeralOctets isDecimalMark (b :: text) = b :: octets := by
    rw [numeralOctets.eq_def]
    exact ⟨_, by simp only [hmark, hdigit, if_true, Bool.false_eq_true, if_false]; rfl⟩
  unfold numeral
  -- in each form of the numeral, a letter may touch its end
  cases text with
  | nil =>
    dsimp only
    rw [hoctets]
    split
    · split <;> exact ⟨_, rfl⟩
    · exact ⟨_, rfl⟩
  | cons x rest =>
    dsimp only
    by_cases hbinary : b = 48 ∧ (x = 88 ∨ x = 120)
    · rw [if_pos hbinary]
      split
      · split <;> exact ⟨_, rfl⟩
      · exact ⟨_, rfl⟩
    · rw [if_neg hbinary, hoctets]
      split
      · split <;> exact ⟨_, rfl⟩
      · exact ⟨_, rfl⟩

theorem scanNumber_cases (line : Nat) {b : UInt8} (hb : isDigit b ∨ b = 46) (text : List UInt8) :
    (scanNumber line (b :: text)).rest <:+ text ∧
      ∀ s, (scanNumber line (b :: text)).token ≠ .name s := by
  obtain ⟨octets, hoctets⟩ := exists_numeral_eq_cons hb text
  have hdrop : (b :: text).drop (b :: octets).length <:+ text := List.drop_suffix octets.length text
  unfold scanNumber
  rw [hoctets]
  dsimp only
  split <;> exact ⟨hdrop, by simp⟩

/-- The octets of a name that is no reserved word. -/
structure IsNameOctets (octets : List UInt8) : Prop where
  head : ∃ b ∈ octets.head?, Octets.isNameStart b = true
  all : ∀ b ∈ octets, Octets.isNameRest b = true
  free : Keyword.ofString? (String.ofList (Numeral.chars octets)) = none

theorem nameRest_of_nameStart : ∀ b : UInt8,
    Octets.isNameStart b = true → Octets.isNameRest b = true := by
  intro b h
  simp [Octets.isNameRest, h]

theorem scanWord_cases (line : Nat) {b : UInt8} (hb : Octets.isNameStart b = true)
    (text : List UInt8) :
    (scanWord line (b :: text)).rest <:+ text ∧
      ∀ s, (scanWord line (b :: text)).token = .name s →
        ∃ word, b :: text = word ++ (scanWord line (b :: text)).rest ∧ s = ofList word ∧
          IsNameOctets word := by
  have hrest := nameRest_of_nameStart b hb
  have hsuffix : (b :: text).dropWhile Octets.isNameRest <:+ text := by
    rw [List.dropWhile_cons_of_pos hrest]
    exact List.dropWhile_suffix _
  unfold scanWord
  dsimp only
  split
  · exact ⟨hsuffix, fun s h => by cases h⟩
  · next hfree =>
    refine ⟨hsuffix, fun s h => ⟨_, List.takeWhile_append_dropWhile.symm, ?_, ?_, ?_, hfree⟩⟩
    · exact (Token.name.inj h).symm
    · exact ⟨b, by rw [List.takeWhile_cons_of_pos hrest]; rfl, hb⟩
    · exact fun c hc => List.mem_takeWhile_imp hc

/-- A token takes its first octet, and a name all of its own. -/
theorem scanHere_cases (line : Nat) (b : UInt8) (text : List UInt8) :
    (scanHere line b text).rest <:+ text ∧
      ∀ s, (scanHere line b text).token = .name s →
        ∃ word, b :: text = word ++ (scanHere line b text).rest ∧ s = ofList word ∧
          IsNameOctets word := by
  -- only words are names
  have hstring : ∀ {s : Scan}, s.IsString text → s.rest <:+ text ∧ ∀ t, s.token = .name t →
      ∃ word, b :: text = word ++ s.rest ∧ t = ofList word ∧ IsNameOctets word := by
    rintro s ⟨h, hsuffix⟩
    refine ⟨hsuffix, fun t ht => ?_⟩
    rw [ht] at h
    obtain ⟨_, h⟩ | h := h <;> cases h
  have hother : ∀ {s : Scan}, (s.rest <:+ text ∧ ∀ t, s.token ≠ .name t) →
      s.rest <:+ text ∧ ∀ t, s.token = .name t →
        ∃ word, b :: text = word ++ s.rest ∧ t = ofList word ∧ IsNameOctets word :=
    fun h => ⟨h.1, fun t ht => absurd ht (h.2 t)⟩
  unfold scanHere
  split
  · next hb => exact scanWord_cases line hb text
  split
  · next hb => exact hother (scanNumber_cases line (.inl hb) text)
  split
  · exact hstring (Quoted.isString_scan _ _ _ _ _)
  split
  · split
    · next level rest h =>
      have hopened := Bracketed.isString_scanOpened level line rest
      exact hstring ⟨hopened.token, hopened.suffix.trans (Bracketed.level_suffix h)⟩
    · split
      · exact hother ⟨List.suffix_rfl, by simp⟩
      · exact hother (scanSymbol_cases line b text)
  split
  · next hb => exact hother (scanNumber_cases line (.inr hb.1) text)
  · exact hother (scanSymbol_cases line b text)

/-! ### Rounds -/

theorem skipLine_suffix (text : List UInt8) : skipLine text <:+ text := by
  induction text with
  | nil => exact List.suffix_rfl
  | cons b text ih =>
    rw [skipLine]
    split
    · exact List.suffix_rfl
    · exact ih.trans (List.suffix_cons b text)

/-- What one round of the scan does. -/
inductive Round (line : Nat) (text : List UInt8) : Prop
  | skip (line' : Nat) {b : UInt8} {more rest : List UInt8} (split : text = b :: more)
      (suffix : rest <:+ more) (eq : ∀ fuel, scan (fuel + 1) line text = scan fuel line' rest)
  | stop (s : Scan) (stops : ¬ IsProper s.token) (eq : ∀ fuel, scan (fuel + 1) line text = s)
  | token {b : UInt8} {rest : List UInt8} (split : text = b :: rest)
      (eq : ∀ fuel, scan (fuel + 1) line text = scanHere line b rest)

theorem round_comment (line : Nat) (text : List UInt8) : Round line (45 :: 45 :: text) := by
  cases text with
  | nil => exact .stop ⟨.done, line, []⟩ (fun h => h.1 rfl) fun _ => rfl
  | cons c after =>
    -- a short comment ends with its line, a long one with its bracket or not at all
    cases hlevel : (if c = 91 then Bracketed.level? 0 after else none) with
    | none =>
      refine .skip line rfl ((skipLine_suffix (c :: after)).trans (List.suffix_cons 45 _)) ?_
      intro fuel
      rw [scan.eq_def]
      dsimp only [List.drop]
      rw [if_neg (by decide), if_neg (by decide), if_pos ⟨rfl, rfl⟩, hlevel]
    | some found =>
      obtain ⟨level, opened⟩ := found
      have hopened : opened <:+ 45 :: c :: after := by
        split at hlevel
        · exact (Bracketed.level_suffix hlevel).trans ⟨[45, c], rfl⟩
        · cases hlevel
      have hcomment := Bracketed.isString_scanOpened level line opened
      rcases hcomment.token with ⟨octets, htoken⟩ | htoken
      · refine .skip (Bracketed.scanOpened level line opened).line rfl
          (hcomment.suffix.trans hopened) fun fuel => ?_
        rw [scan.eq_def]
        dsimp only [List.drop]
        rw [if_neg (by decide), if_neg (by decide), if_pos ⟨rfl, rfl⟩, hlevel]
        simp only [htoken]
      · refine .stop ⟨.malformed, (Bracketed.scanOpened level line opened).line, []⟩
          (fun h => h.2 rfl) fun fuel => ?_
        rw [scan.eq_def]
        dsimp only [List.drop]
        rw [if_neg (by decide), if_neg (by decide), if_pos ⟨rfl, rfl⟩, hlevel]
        simp only [htoken]

theorem round (line : Nat) (text : List UInt8) : Round line text := by
  cases text with
  | nil => exact .stop ⟨.done, line, []⟩ (fun h => h.1 rfl) fun _ => rfl
  | cons b more =>
    -- the end of a line, which may be a pair; a blank; a comment; or a token
    by_cases hline : Quoted.isLineEnd b = true
    · cases more with
      | nil =>
        exact .skip (line + 1) rfl List.suffix_rfl fun fuel => by
          simp only [scan, hline]
          rfl
      | cons c after =>
        by_cases hpair : Quoted.isPair b c = true
        · exact .skip (line + 1) rfl (List.suffix_cons c after) fun fuel => by
            simp only [scan, hline, hpair, if_true]
        · exact .skip (line + 1) rfl List.suffix_rfl fun fuel => by
            simp only [scan, hline, hpair, if_true, Bool.false_eq_true, if_false]
    by_cases hspace : isSpace b = true
    · exact .skip line rfl List.suffix_rfl fun fuel => by
        rw [scan.eq_def]
        simp only [hline, hspace, if_true, Bool.false_eq_true, if_false]
    by_cases hcomment : b = 45 ∧ more.head? = some 45
    · obtain ⟨rfl, hhead⟩ := hcomment
      obtain ⟨text, rfl⟩ := List.head?_eq_some_iff.mp hhead
      exact round_comment line text
    · exact .token rfl fun fuel => by
        rw [scan.eq_def]
        simp only [hline, hspace, hcomment, Bool.false_eq_true, if_false]

theorem scan_fuel {n m : Nat} {text : List UInt8} (line : Nat) (hn : text.length < n)
    (hm : text.length < m) : scan n line text = scan m line text := by
  induction n generalizing m line text with
  | zero => omega
  | succ n ih =>
    obtain ⟨m, rfl⟩ : ∃ k, m = k + 1 := ⟨m - 1, by omega⟩
    cases round line text with
    | skip line' split suffix eq =>
      have := suffix.length_le
      rw [split, List.length_cons] at hn hm
      rw [eq, eq]
      exact ih line' (by omega) (by omega)
    | stop s stops eq => rw [eq, eq]
    | token split eq => rw [eq, eq]

/-- A token takes some of the text. -/
theorem scan_shorter {fuel line : Nat} {text : List UInt8}
    (h : IsProper (scan fuel line text).token) :
    (scan fuel line text).rest.length < text.length := by
  induction fuel generalizing line text with
  | zero => exact absurd rfl h.2
  | succ fuel ih =>
    cases round line text with
    | skip line' split suffix eq =>
      have := suffix.length_le
      rw [eq] at h ⊢
      rw [split, List.length_cons]
      have := ih h
      omega
    | stop s stops eq => exact absurd (eq fuel ▸ h) stops
    | @token b rest split eq =>
      have := (scanHere_cases line b rest).1.length_le
      rw [eq, split, List.length_cons]
      omega

/-- A name stands in the text where it has been read. -/
theorem scan_name {fuel line : Nat} {text : List UInt8} {s : Octets}
    (h : (scan fuel line text).token = .name s) :
    ∃ before word, text = before ++ word ++ (scan fuel line text).rest ∧ s = ofList word ∧
      IsNameOctets word := by
  induction fuel generalizing line text with
  | zero => cases h
  | succ fuel ih =>
    cases round line text with
    | @skip line' b more rest split suffix eq =>
      -- what this round passed over stands before the name
      rw [eq] at h ⊢
      obtain ⟨before, word, hrest, hword⟩ := ih h
      obtain ⟨front, hfront⟩ := suffix
      refine ⟨b :: (front ++ before), word, ?_, hword⟩
      rw [split, ← hfront]
      conv_lhs => rw [hrest]
      simp only [List.cons_append, List.append_assoc]
    | stop s stops eq =>
      rw [eq] at h
      exact absurd (h ▸ ⟨by simp, by simp⟩) stops
    | token split eq =>
      rw [eq] at h ⊢
      obtain ⟨word, htext, hword⟩ := (scanHere_cases _ _ _).2 s h
      exact ⟨[], word, split.trans htext, hword⟩

/-! ### Lexemes -/

theorem listFrom_fuel {n m : Nat} {text : List UInt8} (line : Nat) (hn : text.length < n)
    (hm : text.length < m) : listFrom n line text = listFrom m line text := by
  induction n generalizing m line text with
  | zero => omega
  | succ n ih =>
    obtain ⟨m, rfl⟩ : ∃ k, m = k + 1 := ⟨m - 1, by omega⟩
    -- both scans find the same token, and what is left behind it is shorter
    rw [listFrom, listFrom, scan_fuel line hn hm]
    split
    · rfl
    · rfl
    · next hdone hmalformed =>
      have hshorter : (scan (m + 1) line text).rest.length < text.length :=
        scan_shorter ⟨hdone, hmalformed⟩
      exact congrArg (List.cons _) (ih _ (by omega) (by omega))

/-- The lexemes of a text that begins on a line. -/
def lexemes (line : Nat) (text : List UInt8) : List Lexeme := listFrom (text.length + 1) line text

theorem lexemes_ne_nil (line : Nat) (text : List UInt8) : lexemes line text ≠ [] := by
  rw [lexemes, listFrom]
  split <;> exact List.cons_ne_nil _ _

/-- A token at the head of a text is its first lexeme, and the lexemes of the rest follow. -/
theorem Begins.lexemes {text rest : List UInt8} {t : Token} (h : Begins text t rest) (line : Nat) :
    Token.lexemes line text = ⟨t, line⟩ :: Token.lexemes line rest := by
  obtain ⟨hdone, hmalformed⟩ := h.proper
  have hshorter := h.shorter
  rw [Token.lexemes, listFrom, h.scan]
  split
  · next heq => exact absurd heq hdone
  · next heq => exact absurd heq hmalformed
  · rw [Token.lexemes, listFrom_fuel line hshorter (Nat.lt_succ_self _)]

theorem Spells.lexemes {text rest : List UInt8} {ts : List Token} (h : Spells text ts rest)
    (line : Nat) :
    Token.lexemes line text = ts.map (⟨·, line⟩) ++ Token.lexemes line rest := by
  induction h with
  | nil => rfl
  | cons first _ ih => rw [first.lexemes, ih, List.map_cons, List.cons_append]

/-- The first lexeme of a text is what the scan finds first. -/
theorem scan_of_lexemes {line : Nat} {text : List UInt8} {first : Lexeme} {more : List Lexeme}
    (h : Token.lexemes line text = first :: more) :
    (scan (text.length + 1) line text).token = first.token := by
  rw [Token.lexemes, listFrom] at h
  split at h
  · next heq => rw [heq, ← (List.cons.inj h).1]
  · next heq => rw [heq, ← (List.cons.inj h).1]
  · rw [← (List.cons.inj h).1]

end Token

end LuaConfig.Lua
