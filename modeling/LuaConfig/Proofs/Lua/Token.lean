/-
The tokens at the head of a text.

`Reads text tokens rest` says that a text begins with the given tokens, blanks aside, and goes on
with `rest`.  What follows a token is part of the judgment, since a token is as long as can be, so
that readings are composed by `Reads.append` without looking at the tokens again.  A text that is
read to its end has these tokens and no others (`Reads.list`).  `Begins` is the judgment for one
token, at the very head of a text, and `Spells` for tokens with nothing between them.
-/
import LuaConfig.Lua.Token.Scan
import LuaConfig.Proofs.Lua.Numeral
import LuaConfig.Proofs.Lua.Octets

namespace LuaConfig.Lua

/-- Is the text a name, that is, no reserved word? -/
def isName (text : String) : Bool :=
  match text.toList with
  | [] => false
  | c :: rest => isNameStart c && rest.all isNameRest && (Keyword.ofString? text).isNone

namespace Token

open Octets Decimal

/-- What stands between two tokens of one line, or ends the line. -/
def IsGap (b : UInt8) (rest : List UInt8) : Prop :=
  b = 32 ∨ (b = 10 ∧ ∀ c ∈ rest.head?, c ≠ 13)

/-- A token, as against the end of a text or what is none. -/
def IsProper (t : Token) : Prop := t ≠ .done ∧ t ≠ .malformed

/-- The first octet of a token: no blank, and no beginning of a comment. -/
def IsHead (b : UInt8) (rest : List UInt8) : Prop :=
  b ≠ 10 ∧ b ≠ 13 ∧ isSpace b = false ∧ ¬ (b = 45 ∧ rest.head? = some 45)

inductive Reads : List UInt8 → List Token → List UInt8 → Prop
  | done {text : List UInt8} : Reads text [] text
  | gap {b : UInt8} {text rest : List UInt8} {ts : List Token} (h : IsGap b text)
      (more : Reads text ts rest) : Reads (b :: text) ts rest
  | token {b : UInt8} {text middle rest : List UInt8} {t : Token} {ts : List Token}
      (head : IsHead b text) (proper : IsProper t) (shorter : middle.length ≤ text.length)
      (here : ∀ line, scanHere line b text = ⟨t, line, middle⟩) (more : Reads middle ts rest) :
      Reads (b :: text) (t :: ts) rest

namespace Reads

theorem append {text middle rest : List UInt8} {ts us : List Token} (h1 : Reads text ts middle)
    (h2 : Reads middle us rest) : Reads text (ts ++ us) rest := by
  induction h1 with
  | done => exact h2
  | gap h _ ih => exact .gap h (ih h2)
  | token head proper shorter here _ ih => exact .token head proper shorter here (ih h2)

theorem sound {text rest : List UInt8} {ts : List Token} (h : Reads text ts rest) :
    Token.malformed ∉ ts := by
  induction h with
  | done => simp
  | gap _ _ ih => exact ih
  | token _ proper _ _ _ ih =>
    rintro hmem
    rcases List.mem_cons.mp hmem with h | h
    · exact proper.2 h.symm
    · exact ih h

theorem scan_gap {b : UInt8} {text : List UInt8} (h : IsGap b text) (fuel line : Nat) :
    ∃ line', scan (fuel + 1) line (b :: text) = scan fuel line' text := by
  rcases h with rfl | ⟨rfl, hc⟩
  · exact ⟨line, rfl⟩
  · cases text with
    | nil => exact ⟨line + 1, rfl⟩
    | cons c text =>
      have hpair : Quoted.isPair 10 c = false := by
        have : c ≠ 13 := hc c rfl
        simp [Quoted.isPair, this]
      refine ⟨line + 1, ?_⟩
      simp only [scan, Quoted.isLineEnd, hpair]
      rfl

theorem scan_head {b : UInt8} {text : List UInt8} (h : IsHead b text) (fuel line : Nat) :
    scan (fuel + 1) line (b :: text) = scanHere line b text := by
  obtain ⟨h1, h2, h3, h4⟩ := h
  rw [scan.eq_def]
  simp [Quoted.isLineEnd, h1, h2, h3, h4]

/-- What the first token of a text is that is read to its end. -/
theorem scan_nil {text : List UInt8} (h : Reads text [] []) :
    ∀ fuel line, text.length < fuel → ∃ line', scan fuel line text = ⟨.done, line', []⟩ := by
  generalize hts : ([] : List Token) = ts at h
  generalize hrest : ([] : List UInt8) = rest at h
  induction h with
  | done =>
    subst hrest
    intro fuel line hf
    obtain ⟨n, rfl⟩ : ∃ n, fuel = n + 1 := ⟨fuel - 1, by omega⟩
    exact ⟨line, rfl⟩
  | gap hgap _ ih =>
    intro fuel line hf
    obtain ⟨n, rfl⟩ : ∃ n, fuel = n + 1 := ⟨fuel - 1, by omega⟩
    obtain ⟨line', hscan⟩ := scan_gap hgap n line
    rw [hscan]
    exact ih hts hrest n line' (by simpa using hf)
  | token => cases hts

theorem scan_cons {text rest : List UInt8} {t : Token} {us : List Token}
    (h : Reads text (t :: us) rest) :
    ∀ fuel line, text.length < fuel → ∃ line' middle, scan fuel line text = ⟨t, line', middle⟩ ∧
      middle.length < text.length ∧ IsProper t ∧ Reads middle us rest := by
  generalize hts : t :: us = ts at h
  induction h with
  | done => cases hts
  | gap hgap _ ih =>
    intro fuel line hf
    obtain ⟨n, rfl⟩ : ∃ n, fuel = n + 1 := ⟨fuel - 1, by omega⟩
    obtain ⟨line', hscan⟩ := scan_gap hgap n line
    obtain ⟨line'', middle, h1, h2, h3⟩ := ih hts n line' (by simpa using hf)
    exact ⟨line'', middle, hscan.trans h1, by rw [List.length_cons]; omega, h3⟩
  | @token b text middle rest t' ts head proper shorter here more _ =>
    obtain ⟨rfl, rfl⟩ := List.cons.inj hts
    intro fuel line hf
    obtain ⟨n, rfl⟩ : ∃ n, fuel = n + 1 := ⟨fuel - 1, by omega⟩
    exact ⟨line, middle, (scan_head head n line).trans (here line),
      by rw [List.length_cons]; omega, proper, more⟩

theorem listFrom {ts : List Token} {text : List UInt8} (h : Reads text ts []) :
    ∀ fuel line, text.length < fuel → (listFrom fuel line text).map (·.token) = ts ++ [.done] := by
  induction ts generalizing text with
  | nil =>
    intro fuel line hf
    obtain ⟨n, rfl⟩ : ∃ n, fuel = n + 1 := ⟨fuel - 1, by omega⟩
    obtain ⟨line', hscan⟩ := scan_nil h (n + 1) line hf
    rw [Token.listFrom, hscan]
    rfl
  | cons t us ih =>
    intro fuel line hf
    obtain ⟨n, rfl⟩ : ∃ n, fuel = n + 1 := ⟨fuel - 1, by omega⟩
    obtain ⟨line', middle, hscan, hlen, ⟨hdone, hmal⟩, hmore⟩ := scan_cons h (n + 1) line hf
    have htail := ih hmore n line' (by omega)
    rw [Token.listFrom, hscan]
    dsimp only
    split
    · exact absurd rfl hdone
    · exact absurd rfl hmal
    · rw [List.map_cons, htail, List.cons_append]

/-- A text that is read to its end has these tokens. -/
theorem list {source : Octets} {ts : List Token} (h : Reads source.toList ts []) :
    (Token.list source).map (·.token) = ts ++ [.done] :=
  h.listFrom _ 1 (Nat.lt_succ_self _)

end Reads

/-- A text begins with a token, no blank before it, and goes on with `rest`. -/
inductive Begins : List UInt8 → Token → List UInt8 → Prop
  | intro {b : UInt8} {text rest : List UInt8} {t : Token} (head : IsHead b text)
      (proper : IsProper t) (shorter : rest.length ≤ text.length)
      (here : ∀ line, scanHere line b text = ⟨t, line, rest⟩) : Begins (b :: text) t rest

namespace Begins

variable {text middle rest : List UInt8} {t : Token} {ts : List Token}

theorem append (h : Begins text t middle) (more : Reads middle ts rest) :
    Reads text (t :: ts) rest := by
  obtain ⟨head, proper, shorter, here⟩ := h
  exact .token head proper shorter here more

theorem reads (h : Begins text t rest) : Reads text [t] rest := h.append .done

theorem proper (h : Begins text t rest) : IsProper t := by
  obtain ⟨_, proper, _, _⟩ := h
  exact proper

theorem shorter (h : Begins text t rest) : rest.length < text.length := by
  obtain ⟨_, _, shorter, _⟩ := h
  exact Nat.lt_succ_of_le shorter

theorem scan (h : Begins text t rest) (fuel line : Nat) :
    Token.scan (fuel + 1) line text = ⟨t, line, rest⟩ := by
  obtain ⟨head, _, _, here⟩ := h
  exact (Reads.scan_head head fuel line).trans (here line)

end Begins

/-- Tokens at the head of a text, one right behind the other. -/
inductive Spells : List UInt8 → List Token → List UInt8 → Prop
  | nil {text : List UInt8} : Spells text [] text
  | cons {text middle rest : List UInt8} {t : Token} {ts : List Token}
      (first : Begins text t middle) (more : Spells middle ts rest) : Spells text (t :: ts) rest

theorem Begins.spells {text rest : List UInt8} {t : Token} (h : Begins text t rest) :
    Spells text [t] rest := .cons h .nil

namespace Spells

variable {text middle rest : List UInt8} {ts us : List Token}

theorem append (h : Spells text ts middle) (more : Spells middle us rest) :
    Spells text (ts ++ us) rest := by
  induction h with
  | nil => exact more
  | cons first _ ih => exact .cons first (ih more)

theorem reads (h : Spells text ts rest) : Reads text ts rest := by
  induction h with
  | nil => exact .done
  | cons first _ ih => exact first.append ih

end Spells

/-! ### Symbols -/

/-- A sign of one octet is read where it does not begin a longer one. -/
theorem scanSymbol_of_scan {b : UInt8} {text rest : List UInt8} {s : Symbol}
    (h : Symbol.scan? (b :: text) = some (s, rest)) (line : Nat) :
    scanSymbol line (b :: text) = ⟨.symbol s, line, rest⟩ := by
  simp only [scanSymbol, h]

/-- Signs that begin no longer ones. -/
theorem begins_single {b : UInt8} {s : Symbol}
    (h : (b, s) ∈ [((123 : UInt8), Symbol.openBrace), (125, .closeBrace), (93, .closeBracket),
      (44, .comma)]) (rest : List UInt8) : Begins (b :: rest) (.symbol s) rest := by
  simp only [List.mem_cons, Prod.mk.injEq, List.not_mem_nil, or_false] at h
  obtain ⟨rfl, rfl⟩ | ⟨rfl, rfl⟩ | ⟨rfl, rfl⟩ | ⟨rfl, rfl⟩ := h
  all_goals
    exact .intro ⟨by decide, by decide, by decide, by simp⟩ ⟨by simp, by simp⟩ le_rfl fun _ => rfl

theorem begins_assign {b : UInt8} {rest : List UInt8} (h : b ≠ 61) :
    Begins (61 :: b :: rest) (.symbol .assign) (b :: rest) := by
  have hscan : Symbol.scan? (61 :: b :: rest) = some (.assign, b :: rest) := by
    simp [Symbol.scan?, Symbol.spellings, Symbol.table, List.findSome?, h.symm]
  exact .intro ⟨by decide, by decide, by decide, by simp⟩ ⟨by simp, by simp⟩ le_rfl fun line =>
    scanSymbol_of_scan hscan line

theorem begins_equal (rest : List UInt8) : Begins (61 :: 61 :: rest) (.symbol .equal) rest :=
  .intro ⟨by decide, by decide, by decide, by simp⟩ ⟨by simp, by simp⟩ (by simp) fun _ => rfl

theorem begins_minus {b : UInt8} {rest : List UInt8} (h : b ≠ 45) :
    Begins (45 :: b :: rest) (.symbol .minus) (b :: rest) :=
  .intro ⟨by decide, by decide, by decide, by simp [h]⟩ ⟨by simp, by simp⟩ le_rfl fun _ => rfl

theorem begins_slash {b : UInt8} {rest : List UInt8} (h : b ≠ 47) :
    Begins (47 :: b :: rest) (.symbol .slash) (b :: rest) := by
  have hscan : Symbol.scan? (47 :: b :: rest) = some (.slash, b :: rest) := by
    simp [Symbol.scan?, Symbol.spellings, Symbol.table, List.findSome?, h.symm]
  exact .intro ⟨by decide, by decide, by decide, by simp⟩ ⟨by simp, by simp⟩ le_rfl fun line =>
    scanSymbol_of_scan hscan line

/-- An opening bracket before a quoted string does not open a long string. -/
theorem begins_openBracket {b : UInt8} {rest : List UInt8} (h1 : b ≠ 61) (h2 : b ≠ 91) :
    Begins (91 :: b :: rest) (.symbol .openBracket) (b :: rest) := by
  refine .intro ⟨by decide, by decide, by decide, by simp⟩ ⟨by simp, by simp⟩ le_rfl
    fun line => ?_
  have hlevel : Bracketed.level? 0 (b :: rest) = none := by simp [Bracketed.level?, h1, h2]
  simp only [scanHere, hlevel]
  simp only [List.head?_cons, Option.some.injEq, h1, if_false]
  rfl

/-! ### Classes of octets -/

theorem nameRest_classes : ∀ b : UInt8, Octets.isNameRest b = true →
    b ≠ 10 ∧ b ≠ 13 ∧ isSpace b = false ∧ b ≠ 45 := by
  decide +kernel

/-- Words and numerals begin as tokens do. -/
theorem isHead_of_isNameRest {b : UInt8} (h : Octets.isNameRest b = true) (text : List UInt8) :
    IsHead b text := by
  obtain ⟨h10, h13, hspace, hhyphen⟩ := nameRest_classes b h
  exact ⟨h10, h13, hspace, fun hand => hhyphen hand.1⟩

theorem not_nameRest_classes : ∀ b : UInt8, Octets.isNameRest b = false →
    Octets.isNameStart b = false ∧ isDecimalMark b = false ∧ isHexDigit b = false := by
  decide +kernel

theorem numeral_classes : ∀ b : UInt8, (isDigit b ∨ b = 46) →
    isDecimalMark b = false ∧ (isHexDigit b ∨ b = 46) := by
  decide +kernel

theorem digit_not_nameStart : ∀ b : UInt8, isDigit b → Octets.isNameStart b = false := by
  decide +kernel

/-! ### Words -/

/-- A text that does not go on with a name or a numeral. -/
def IsStop (rest : List UInt8) : Prop := ∀ b ∈ rest.head?, Octets.isNameRest b = false ∧ b ≠ 46

theorem isNameStart_octet {c : Char} (h : c.toNat < 128) :
    Octets.isNameStart (UInt8.ofNat c.toNat) = isNameStart c := by
  have key : ∀ n < 128, Octets.isNameStart (UInt8.ofNat n) = isNameStart (Char.ofNat n) := by
    decide
  rw [key _ h, Char.ofNat_toNat]

theorem isNameRest_octet {c : Char} (h : c.toNat < 128) :
    Octets.isNameRest (UInt8.ofNat c.toNat) = isNameRest c := by
  have key : ∀ n < 128, Octets.isNameRest (UInt8.ofNat n) = isNameRest (Char.ofNat n) := by
    decide
  rw [key _ h, Char.ofNat_toNat]

theorem ascii_of_isNameRest {c : Char} (h : isNameRest c) : c.toNat < 128 := by
  have key : ∀ d : Char, c ≤ d → d.toNat < 128 → c.toNat < 128 := by
    intro d h1 h2
    exact (Char.le_def.mp h1 : c.val.toNat ≤ d.val.toNat).trans_lt h2
  simp only [isNameRest, isNameStart, decide_eq_true_eq, Bool.decide_or, Bool.or_eq_true] at h
  rcases h with (⟨-, h⟩ | ⟨-, h⟩ | rfl) | ⟨-, h⟩
  · exact key _ h (by decide)
  · exact key _ h (by decide)
  · decide
  · exact key _ h (by decide)

theorem isNameRest_of_isNameStart {c : Char} (h : isNameStart c) : isNameRest c := by
  simp [isNameRest, h]

/-- The token that a word is. -/
def wordToken (word : String) : Token :=
  match Keyword.ofString? word with
  | some k => .keyword k
  | none => .name (ofString word)

/-- The octets of a word are the longest head of a text that could be one. -/
theorem span_word {octets rest : List UInt8} (h : ∀ b ∈ octets, Octets.isNameRest b = true)
    (hstop : IsStop rest) : (octets ++ rest).takeWhile Octets.isNameRest = octets ∧
      (octets ++ rest).dropWhile Octets.isNameRest = rest := by
  rw [List.takeWhile_append_of_pos h, List.dropWhile_append_of_pos h]
  cases rest with
  | nil => simp
  | cons b rest => simp [(hstop b rfl).1]

theorem scanWord_encoded {cs : List Char} (h : ∀ c ∈ cs, isNameRest c) {rest : List UInt8}
    (hstop : IsStop rest) (line : Nat) :
    scanWord line (encoded cs ++ rest) = ⟨wordToken (String.ofList cs), line, rest⟩ := by
  have hascii : ∀ c ∈ cs, c.toNat < 128 := fun c hc => ascii_of_isNameRest (h c hc)
  have hoctets : ∀ b ∈ encoded cs, Octets.isNameRest b = true := by
    intro b hb
    rw [encoded_ascii hascii, List.mem_map] at hb
    obtain ⟨c, hc, rfl⟩ := hb
    rw [isNameRest_octet (hascii c hc)]
    exact h c hc
  obtain ⟨htake, hdrop⟩ := span_word hoctets hstop
  simp only [scanWord, htake, hdrop, chars_encoded hascii, ofList_encoded, wordToken]
  cases Keyword.ofString? (String.ofList cs) <;> rfl

/-- A word is read to its end. -/
theorem begins_word {c : Char} {cs : List Char} (hstart : isNameStart c)
    (hrest : ∀ d ∈ cs, isNameRest d) {rest : List UInt8} (hstop : IsStop rest) :
    Begins (encoded (c :: cs) ++ rest) (wordToken (String.ofList (c :: cs))) rest := by
  have hall : ∀ d ∈ c :: cs, isNameRest d := by
    intro d hd
    rcases List.mem_cons.mp hd with rfl | hd
    · exact isNameRest_of_isNameStart hstart
    · exact hrest d hd
  have hascii : c.toNat < 128 := ascii_of_isNameRest (hall c List.mem_cons_self)
  have hstart' : Octets.isNameStart (UInt8.ofNat c.toNat) = true := by
    rw [isNameStart_octet hascii]
    exact hstart
  have hrest' : Octets.isNameRest (UInt8.ofNat c.toNat) = true := by
    rw [isNameRest_octet hascii]
    exact hall c List.mem_cons_self
  have hword := scanWord_encoded hall hstop
  rw [encoded_cons_ascii hascii, List.cons_append] at hword ⊢
  refine .intro (isHead_of_isNameRest hrest' _) ?_ (by simp) fun line => ?_
  · unfold wordToken
    split <;> exact ⟨by simp, by simp⟩
  · rw [scanHere, if_pos hstart', hword]

theorem begins_name {name : String} (h : isName name) {rest : List UInt8} (hstop : IsStop rest) :
    Begins (encoded name.toList ++ rest) (.name (ofString name)) rest := by
  obtain ⟨c, cs, hlist⟩ : ∃ c cs, name.toList = c :: cs := by
    cases hl : name.toList with
    | nil => simp [isName, hl] at h
    | cons c cs => exact ⟨c, cs, rfl⟩
  have hname : String.ofList (c :: cs) = name := by rw [← hlist, String.ofList_toList]
  simp only [isName, hlist, Bool.and_eq_true, List.all_eq_true, Option.isNone_iff_eq_none] at h
  obtain ⟨⟨h1, h2⟩, h3⟩ := h
  have hbegins := begins_word h1 h2 hstop
  rw [hname, wordToken, h3] at hbegins
  rw [hlist]
  exact hbegins

/-! ### Numerals -/

theorem numeralOctets_append {octets rest : List UInt8}
    (h : ∀ b ∈ octets, (Octets.isDigit b ∨ b = 46)) (hstop : IsStop rest) :
    numeralOctets isDecimalMark (octets ++ rest) = octets := by
  induction octets with
  | nil =>
    cases rest with
    | nil => rfl
    | cons b rest =>
      obtain ⟨h1, h2⟩ := hstop b rfl
      obtain ⟨-, h3, h4⟩ := not_nameRest_classes b h1
      rw [List.nil_append, numeralOctets.eq_def]
      simp [h2, h3, h4]
  | cons b octets ih =>
    obtain ⟨h1, h2⟩ := numeral_classes b (h b (by simp))
    rw [List.cons_append, numeralOctets.eq_def]
    simp only [h1, h2, if_true, Bool.false_eq_true, if_false,
      ih fun c hc => h c (by simp [hc])]

/-- A numeral that goes on in digits and points is not taken for a hexadecimal one, and no letter
touches its end. -/
theorem numeral_append {b : UInt8} {octets rest : List UInt8}
    (h : ∀ c ∈ b :: octets, isDigit c ∨ c = 46) (hstop : IsStop rest) :
    numeral (b :: octets ++ rest) = b :: octets := by
  have hbody := numeralOctets_append h hstop
  have hend : ∀ c ∈ rest.head?, Octets.isNameStart c = false := fun c hc =>
    (not_nameRest_classes c (hstop c hc).1).1
  -- the letter of a hexadecimal numeral is neither a digit nor a stop
  have hletter : ∀ x tail, octets ++ rest = x :: tail → ¬ (x = 88 ∨ x = 120) := by
    intro x tail heq
    cases octets with
    | nil =>
      rw [List.nil_append] at heq
      have hx := (hstop x (by rw [heq]; rfl)).1
      rintro (rfl | rfl) <;> revert hx <;> decide
    | cons y octets =>
      obtain ⟨rfl, -⟩ := List.cons.inj heq
      have hx := h y (by simp)
      rintro (rfl | rfl) <;> revert hx <;> decide
  have hdrop : (b :: octets ++ rest).drop (b :: octets).length = rest := by simp
  unfold numeral
  rw [List.cons_append] at hbody hdrop ⊢
  split
  · next heq =>
    obtain ⟨rfl, htail⟩ := List.cons.inj heq
    rw [if_neg fun hand => hletter _ _ htail hand.2, hbody]
    dsimp only
    rw [hdrop]
    cases rest with
    | nil => rfl
    | cons c rest => simp [hend c rfl]
  · rw [hbody]
    dsimp only
    rw [hdrop]
    cases rest with
    | nil => rfl
    | cons c rest => simp [hend c rfl]

theorem isDigit_octet {c : Char} (h : c.isDigit) : isDigit (UInt8.ofNat c.toNat) = true := by
  have key : ∀ n < 58, 48 ≤ n → isDigit (UInt8.ofNat n) := by decide
  obtain ⟨hlow, hhigh⟩ := Numeral.isDigit_range h
  exact key _ (by omega) hlow

section Positional

variable {text : List Char} {r : ℚ}

theorem ascii_of_positional (h : Positional text r) : ∀ c ∈ text, c.toNat < 128 := by
  intro c hc
  rcases Numeral.mem_positional h hc with hdigit | rfl
  · have := Numeral.isDigit_range hdigit
    omega
  · decide

theorem octets_of_positional (h : Positional text r) :
    ∀ b ∈ encoded text, isDigit b ∨ b = 46 := by
  intro b hb
  rw [encoded_ascii (ascii_of_positional h), List.mem_map] at hb
  obtain ⟨c, hc, rfl⟩ := hb
  rcases Numeral.mem_positional h hc with hdigit | rfl
  · exact Or.inl (isDigit_octet hdigit)
  · exact Or.inr rfl

/-- A numeral without exponent is read to its end. -/
theorem begins_number (h : Positional text r) {n : Number}
    (hn : Numeral.ofChars? text = some n) {rest : List UInt8} (hstop : IsStop rest) :
    Begins (encoded text ++ rest) (.number n) rest := by
  have hascii := ascii_of_positional h
  have hoctets := octets_of_positional h
  have hchars := chars_encoded hascii
  obtain ⟨c, cs, rfl, hc⟩ := Numeral.head_positional h
  have hdigit := isDigit_octet hc
  rw [encoded_cons_ascii (hascii c List.mem_cons_self)] at hoctets hchars ⊢
  generalize UInt8.ofNat c.toNat = b at hdigit hoctets hchars ⊢
  generalize encoded cs = octets at hoctets hchars ⊢
  have hscan : ∀ line, scanNumber line (b :: octets ++ rest) = ⟨.number n, line, rest⟩ := by
    intro line
    simp only [scanNumber, numeral_append hoctets hstop, hchars, hn]
    simp
  have hhead : Octets.isNameRest b = true := by simp [Octets.isNameRest, hdigit]
  refine .intro (isHead_of_isNameRest hhead _) ⟨by simp, by simp⟩ (by simp) fun line => ?_
  rw [scanHere]
  simp only [digit_not_nameStart b hdigit, hdigit, if_true, Bool.false_eq_true, if_false]
  exact hscan line

end Positional

end Token

end LuaConfig.Lua
