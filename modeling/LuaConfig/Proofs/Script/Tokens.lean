/-
The tokens of a level's script.

What a field holds is written as one scalar or as a list of scalars, each with a key or without
(`Content`).  `LinesHave lines tokens` says that lines are read as the given tokens, whatever lines
come behind them, so that lines are put together as they are written.  The tokens of a script are
those of its contents (`reads_script`); line ends, blanks and the layout of lists are gone.
-/
import LuaConfig.Proofs.Lua.Token
import LuaConfig.Proofs.Script.Number
import LuaConfig.Proofs.Script.Quoted
import LuaConfig.Script.Level

namespace LuaConfig.Script

open Lua Lua.Octets Decimal
open Lua.Token (Begins Spells Reads IsStop)

/-! ### Contents -/

/-- What a field holds, as it is written: a scalar, or scalars in a table, by key or by
position. -/
inductive Content where
  | one (v : Scalar)
  | list (items : List (Option String × Scalar))

/-- An item of a table. -/
def itemText : Option String × Scalar → String
  | (none, v) => scalar v
  | (some name, v) => key name ++ "=" ++ scalar v

def Content.rendition : Content → Rendition
  | one v => .inline (scalar v)
  | list items => .block (items.map itemText)

/-- An override as an item of a table. -/
def overrideItem (o : Override) : Option String × Scalar := (some o.name, o.value)

/-- The contents of the fields that a level has. -/
def content? : (kind : Kind) → kind.Value → Option Content
  | .text, s => some (.one (.string s))
  | .flag, b => some (.one (.bool b))
  | .number, x => some (.one (.number x))
  | .whole, n => some (.one (.number (ofInt n.toInt)))
  | .scalar, v => some (.one v)
  | .texts, items => some (.list (items.map fun s => (none, .string s)))
  | .numbers, items => some (.list (items.map fun x => (none, .number x)))
  | .overrides, items => some (.list ((sortedOverrides items).map overrideItem))
  | .choice, _ => none
  | .limit, _ => none
  | .items, _ => none
  | .options, _ => none

theorem rendition_eq_content (kind : Kind) (v : kind.Value) :
    rendition? kind v = (content? kind v).map Content.rendition := by
  cases kind <;>
    simp only [rendition?, content?, Content.rendition, Option.map_some, Option.map_none,
      List.map_map] <;>
    rfl

/-! ### Tokens -/

def keyTokens (name : String) : List Token :=
  if isName name then [.name (ofString name)]
  else [.symbol .openBracket, .string (ofString name), .symbol .closeBracket]

def signTokens (negative : Bool) : List Token :=
  if negative then [.symbol .minus] else []

def numberTokens (x : Float) : List Token :=
  match Binary64.ofFloat x with
  | .nan => [.number (.int 0), .symbol .slash, .number (.int 0)]
  | .infinite negative =>
    signTokens negative ++ [.number (.int 1), .symbol .slash, .number (.int 0)]
  | .finite negative m q => signTokens negative ++ [.number (magnitudeNumber m q)]

def scalarTokens : Scalar → List Token
  | .bool b => [.keyword (if b then .kwTrue else .kwFalse)]
  | .number x => numberTokens x
  | .string s => [.string (ofString s)]

def itemTokens : Option String × Scalar → List Token
  | (none, v) => scalarTokens v
  | (some name, v) => keyTokens name ++ .symbol .assign :: scalarTokens v

/-- The items of a table, each with the comma behind it. -/
def itemsTokens (items : List (Option String × Scalar)) : List Token :=
  items.flatMap fun item => itemTokens item ++ [.symbol .comma]

def contentTokens : Content → List Token
  | .one v => scalarTokens v
  | .list items => .symbol .openBrace :: (itemsTokens items ++ [.symbol .closeBrace])

/-- The tokens of a field with the given key. -/
def fieldTokens (field : String × Content) : List Token :=
  keyTokens field.1 ++ .symbol .assign :: (contentTokens field.2 ++ [.symbol .comma])

/-! ### Texts that are read as tokens -/

/-- A text that is read as the given tokens, whatever comes behind it. -/
structure Stands (text : String) (ts : List Token) : Prop where
  reads : ∀ rest, IsStop rest → Reads (encoded text.toList ++ rest) ts rest
  /-- It begins with a character that continues no sign. -/
  head : ∃ b octets, encoded text.toList = b :: octets ∧ b ≠ 61 ∧ b ≠ 45

/-- The same, where a sign is allowed in front. -/
structure StandsSigned (text : String) (ts : List Token) : Prop where
  reads : ∀ rest, IsStop rest → Reads (encoded text.toList ++ rest) ts rest
  head : ∃ b octets, encoded text.toList = b :: octets ∧ b ≠ 61

theorem Stands.signed {text : String} {ts : List Token} (h : Stands text ts) (negative : Bool) :
    StandsSigned (Decimal.signed negative text) (signTokens negative ++ ts) := by
  obtain ⟨b, octets, hb, h1, h2⟩ := h.head
  cases negative
  · exact ⟨h.reads, b, octets, hb, h1⟩
  · have htext : encoded ("-" ++ text).toList = 45 :: encoded text.toList := by
      rw [String.toList_append, encoded_append]
      rfl
    refine ⟨fun rest hstop => ?_, 45, encoded text.toList, htext, by decide⟩
    have hread := h.reads rest hstop
    rw [Decimal.signed, if_pos rfl, htext, hb]
    rw [hb] at hread
    exact (Token.begins_minus h2).append hread

theorem isStop_nil : IsStop [] := by
  intro b hb
  cases hb

theorem isStop_cons {b : UInt8} {rest : List UInt8} (h : Octets.isNameRest b = false ∧ b ≠ 46) :
    IsStop (b :: rest) := by
  intro c hc
  cases hc
  exact h

theorem begins_quoted (text : String) (rest : List UInt8) :
    Begins (encoded (quoted text).toList ++ rest) (.string (ofString text)) rest := by
  have htext : encoded (quoted text).toList =
      34 :: encoded (text.toList.flatMap escape ++ ['"']) := by
    rw [quoted, String.toList_ofList, encoded_cons]
    rfl
  rw [htext, List.cons_append]
  refine .intro ⟨by decide, by decide, by decide, by simp⟩ ⟨by simp, by simp⟩ (by simp)
    fun line => ?_
  have hscan := scan_quoted text.toList .empty line rest
  have hempty : ByteArray.empty ++ ofList (encoded text.toList) = ofString text := by
    apply toList_inj
    rw [toList_append, toList_empty, toList_ofList, toList_ofString, List.nil_append]
  rw [hempty] at hscan
  exact hscan

theorem stands_quoted (text : String) : Stands (quoted text) [.string (ofString text)] := by
  refine ⟨fun rest _ => (begins_quoted text rest).reads, 34,
    encoded (text.toList.flatMap escape ++ ['"']), ?_, by decide, by decide⟩
  rw [quoted, String.toList_ofList, encoded_cons]
  rfl

/-- A reserved word is read as one. -/
theorem stands_word (c : Char) (cs : List Char) {text : String} {k : Keyword}
    (htext : text.toList = c :: cs) (hc : isNameStart c) (hcs : cs.all isNameRest)
    (hk : Keyword.ofString? text = some k) (head : UInt8.ofNat c.toNat ≠ 61)
    (head' : UInt8.ofNat c.toNat ≠ 45) : Stands text [.keyword k] := by
  have hword : Token.wordToken (String.ofList (c :: cs)) = .keyword k := by
    rw [← htext, String.ofList_toList, Token.wordToken, hk]
  refine ⟨fun rest hstop => ?_, UInt8.ofNat c.toNat, encoded cs, ?_, head, head'⟩
  · rw [htext, ← hword]
    exact (Token.begins_word hc (List.all_eq_true.mp hcs) hstop).reads
  · rw [htext, encoded_cons_ascii
      (Token.ascii_of_isNameRest (Token.isNameRest_of_isNameStart hc))]

theorem stands_switch (b : Bool) : Stands (switch b) (scalarTokens (.bool b)) := by
  cases b
  · exact stands_word 'f' ['a', 'l', 's', 'e'] (by decide) rfl rfl
      (by decide) (by decide) (by decide)
  · exact stands_word 't' ['r', 'u', 'e'] (by decide) rfl rfl
      (by decide) (by decide) (by decide)

theorem positional_digit {c : Char} (h : c.isDigit) : ∃ r, Positional [c] r :=
  ⟨_, .whole (by simp) (by simpa [Digits] using h)⟩

theorem positional_magnitudeText (m : Nat) (q : Int) :
    ∃ r, Positional (magnitudeText m q).toList r := by
  rcases Nat.eq_zero_or_pos m with rfl | hm
  · rw [magnitudeText, if_pos rfl]
    exact positional_digit (c := '0') rfl
  · obtain ⟨r, hr, -⟩ := magnitudeText_spec q hm
    exact ⟨r, hr⟩

theorem encoded_digit {c : Char} (h : c.isDigit) (cs : List Char) :
    ∃ b, encoded (c :: cs) = b :: encoded cs ∧ b ≠ 61 ∧ b ≠ 45 ∧ b ≠ 47 := by
  have hrange := Numeral.isDigit_range h
  have hoctet : (UInt8.ofNat c.toNat).toNat = c.toNat := by
    rw [UInt8.toNat_ofNat', Nat.mod_eq_of_lt (by omega)]
  have hne : ∀ d : UInt8, d.toNat < 48 ∨ 57 < d.toNat → UInt8.ofNat c.toNat ≠ d := by
    rintro d hd rfl
    omega
  refine ⟨UInt8.ofNat c.toNat, ?_, hne 61 (by decide), hne 45 (by decide), hne 47 (by decide)⟩
  exact encoded_cons_ascii (by omega) cs

theorem stands_positional {text : String} {r : ℚ} (h : Positional text.toList r) {n : Number}
    (hn : Numeral.ofChars? text.toList = some n) : Stands text [.number n] := by
  refine ⟨fun rest hstop => (Token.begins_number h hn hstop).reads, ?_⟩
  obtain ⟨c, cs, hlist, hc⟩ := Numeral.head_positional h
  obtain ⟨b, hb, h1, h2, -⟩ := encoded_digit hc cs
  exact ⟨b, encoded cs, hlist ▸ hb, h1, h2⟩

/-- A quotient of digits. -/
theorem stands_quotient {text : String} {c d : Char} (htext : text.toList = [c, '/', d])
    (hc : c.isDigit) (hd : d.isDigit) {m n : Number} (hm : Numeral.ofChars? [c] = some m)
    (hn : Numeral.ofChars? [d] = some n) :
    Stands text [.number m, .symbol .slash, .number n] := by
  obtain ⟨rc, hrc⟩ := positional_digit hc
  obtain ⟨rd, hrd⟩ := positional_digit hd
  have hsplit : encoded text.toList = encoded [c] ++ 47 :: encoded [d] := by
    rw [htext, ← List.singleton_append, encoded_append]
    rfl
  -- the first digit ends at the slash, the second one at the stop
  constructor
  · intro rest hstop
    obtain ⟨b, hb, -, -, hb3⟩ := encoded_digit hd []
    have hslash : IsStop (47 :: (encoded [d] ++ rest)) := isStop_cons (by decide)
    have h1 := Token.begins_number hrc hm hslash
    have h2 : Begins (47 :: (encoded [d] ++ rest)) (.symbol .slash) (encoded [d] ++ rest) := by
      rw [hb]
      exact Token.begins_slash hb3
    have h3 := Token.begins_number hrd hn hstop
    rw [hsplit, List.append_assoc]
    exact h1.append (h2.append h3.reads)
  · obtain ⟨b, hb, h1, h2, -⟩ := encoded_digit hc ['/', d]
    exact ⟨b, _, htext ▸ hb, h1, h2⟩

theorem stands_number (x : Float) : StandsSigned (number x) (numberTokens x) := by
  unfold number numberTokens
  rcases hx : Binary64.ofFloat x with _ | s | ⟨s, m, q⟩
  · exact (stands_quotient (c := '0') (d := '0') (by simp) rfl rfl (by decide) (by decide)).signed
      false
  · exact (stands_quotient (c := '1') (d := '0') (by simp) rfl rfl (by decide) (by decide)).signed s
  · obtain ⟨r, hr⟩ := positional_magnitudeText m q
    have hc := (eq_ofMagnitudeBits hx).1
    dsimp only
    rw [plain_finite hx]
    exact (stands_positional hr (ofChars_magnitudeText hc)).signed s

theorem stands_scalar (v : Scalar) : StandsSigned (scalar v) (scalarTokens v) := by
  cases v with
  | bool b => exact (stands_switch b).signed false
  | number x => exact stands_number x
  | string s => exact (stands_quoted s).signed false

/-! ### Keys and items -/

/-- The words that are no bare keys are the reserved ones. -/
theorem contains_keywords (name : String) :
    keywords.contains name = (Keyword.ofString? name).isSome := by
  have hspelling : keywords = Keyword.table.map (·.1) := rfl
  rw [Bool.eq_iff_iff, hspelling, List.contains_iff_mem, List.mem_map, Keyword.ofString?,
    Option.isSome_iff_ne_none, Ne, List.lookup_eq_none_iff]
  simp

theorem isIdentifier_eq_isName (name : String) : isIdentifier name = isName name := by
  unfold isIdentifier isName
  cases name.toList with
  | nil => rfl
  | cons c rest =>
    dsimp only
    rw [contains_keywords, Option.not_isSome]

theorem keyTokens_head (name : String) :
    ∃ t us, keyTokens name = t :: us ∧ t ≠ .symbol .closeBrace ∧ t ≠ .malformed := by
  unfold keyTokens
  split <;> exact ⟨_, _, rfl, by simp, by simp⟩

theorem spells_key (name : String) (rest : List UInt8) (hstop : IsStop rest) :
    Spells (encoded (key name).toList ++ rest) (keyTokens name) rest := by
  rw [key, isIdentifier_eq_isName]
  unfold keyTokens
  split
  · next h => exact (Token.begins_name h hstop).spells
  · have htext : encoded ("[" ++ quoted name ++ "]").toList ++ rest =
        91 :: (encoded (quoted name).toList ++ (93 :: rest)) := by
      have hopen : encoded "[".toList = [91] := by decide
      have hclose : encoded "]".toList = [93] := by decide
      simp only [String.toList_append, encoded_append, List.append_assoc, hopen, hclose,
        List.cons_append, List.nil_append]
    -- the quote behind the bracket keeps it from opening a long string
    obtain ⟨b, octets, hb, h1, -⟩ := (stands_quoted name).head
    have hquoted := begins_quoted name (93 :: rest)
    have h91 : b ≠ 91 := by
      rw [quoted, String.toList_ofList, encoded_cons] at hb
      obtain ⟨rfl, -⟩ := List.cons.inj hb
      decide
    rw [htext, hb, List.cons_append]
    rw [hb, List.cons_append] at hquoted
    exact .cons (Token.begins_openBracket h1 h91)
      (.cons hquoted (Token.begins_single (by simp) rest).spells)

/-- A key with the sign behind it, before a text that does not go on with the sign. -/
theorem spells_assigned (name : String) {b : UInt8} (h : b ≠ 61) (rest : List UInt8) :
    Spells (encoded (key name ++ "=").toList ++ b :: rest) (keyTokens name ++ [.symbol .assign])
      (b :: rest) := by
  have hassign : encoded "=".toList = [61] := by decide
  rw [String.toList_append, encoded_append, hassign, List.append_assoc]
  exact (spells_key name _ (isStop_cons (by decide))).append (Token.begins_assign h).spells

/-- A key and its value. -/
theorem reads_assignment (name : String) {text : String} {ts : List Token}
    (h : StandsSigned text ts) {rest : List UInt8} (hstop : IsStop rest) :
    Reads (encoded (key name ++ "=" ++ text).toList ++ rest)
      (keyTokens name ++ .symbol .assign :: ts) rest := by
  obtain ⟨b, octets, hb, h1⟩ := h.head
  have hread := h.reads rest hstop
  rw [String.toList_append, encoded_append, List.append_assoc, List.append_cons]
  rw [hb, List.cons_append] at hread ⊢
  exact (spells_assigned name h1 _).reads.append hread

theorem reads_item (item : Option String × Scalar) {rest : List UInt8} (hstop : IsStop rest) :
    Reads (encoded (itemText item).toList ++ rest) (itemTokens item) rest := by
  obtain ⟨_ | name, v⟩ := item
  · exact (stands_scalar v).reads rest hstop
  · exact reads_assignment name (stands_scalar v) hstop

/-! ### Lines -/

/-- The octets of a line with its end. -/
def lineOctets (line : String) : List UInt8 := encoded line.toList ++ [10]

/-- A text before which a line feed is the whole end of a line. -/
def IsLineStart (rest : List UInt8) : Prop := ∀ b ∈ rest.head?, b ≠ 13

theorem reads_lineFeed {rest : List UInt8} (h : IsLineStart rest) : Reads (10 :: rest) [] rest :=
  .gap (Or.inr ⟨rfl, h⟩) .done

theorem reads_spaces {text rest : List UInt8} {ts : List Token} (n : Nat)
    (h : Reads text ts rest) : Reads (List.replicate n 32 ++ text) ts rest := by
  induction n with
  | zero => exact h
  | succ n ih => exact .gap (Or.inl rfl) ih

/-- Lines that are read as the given tokens, whatever lines come behind them. -/
def LinesHave (lines : List String) (ts : List Token) : Prop :=
  ∀ rest, IsLineStart rest → Reads (lines.flatMap lineOctets ++ rest) ts rest ∧
    IsLineStart (lines.flatMap lineOctets ++ rest)

namespace LinesHave

variable {line : String} {lines lines' : List String} {octets : List UInt8} {ts ts' : List Token}

theorem nil : LinesHave [] [] := fun _ hrest => ⟨.done, hrest⟩

theorem append (h : LinesHave lines ts) (more : LinesHave lines' ts') :
    LinesHave (lines ++ lines') (ts ++ ts') := by
  intro rest hrest
  obtain ⟨hmore, hstart⟩ := more rest hrest
  obtain ⟨hread, hstart'⟩ := h _ hstart
  rw [List.flatMap_append, List.append_assoc]
  exact ⟨hread.append hmore, hstart'⟩

theorem flatMap {α : Type} {f : α → List String} {g : α → List Token}
    (h : ∀ a, LinesHave (f a) (g a)) (as : List α) :
    LinesHave (as.flatMap f) (as.flatMap g) := by
  induction as with
  | nil => exact nil
  | cons a as ih => exact (h a).append ih

/-- A line by itself.  Its first octet must not join the line feed before it. -/
theorem single {b : UInt8} (hline : encoded line.toList = b :: octets) (hb : b ≠ 13)
    (h : ∀ rest, Reads (b :: octets ++ 10 :: rest) ts (10 :: rest)) : LinesHave [line] ts := by
  intro rest hrest
  have htext : [line].flatMap lineOctets ++ rest = b :: octets ++ 10 :: rest := by
    simp [lineOctets, hline]
  rw [htext]
  constructor
  · have hread := (h rest).append (reads_lineFeed hrest)
    rwa [List.append_nil] at hread
  · intro c hc
    cases hc
    exact hb

theorem indented (n : Nat) (hline : encoded line.toList = List.replicate (n + 1) 32 ++ octets)
    (h : ∀ rest, Reads (octets ++ 10 :: rest) ts (10 :: rest)) : LinesHave [line] ts := by
  refine .single hline (by decide) fun rest => ?_
  have hread := reads_spaces (n + 1) (h rest)
  rwa [← List.append_assoc] at hread

/-- An indented line that ends with a comma. -/
theorem comma {indent text : String} (n : Nat)
    (hindent : encoded indent.toList = List.replicate (n + 1) 32)
    (h : ∀ rest, IsStop rest → Reads (encoded text.toList ++ rest) ts rest) :
    LinesHave [indent ++ text ++ ","] (ts ++ [.symbol .comma]) := by
  have hcomma : encoded ",".toList = [44] := by decide
  have hline : encoded (indent ++ text ++ ",").toList =
      List.replicate (n + 1) 32 ++ (encoded text.toList ++ [44]) := by
    rw [String.toList_append, String.toList_append, encoded_append, encoded_append, hindent,
      hcomma, List.append_assoc]
  refine .indented n hline fun rest => ?_
  rw [List.append_assoc]
  exact (h _ (isStop_cons (by decide))).append (Token.begins_single (by simp) _).reads

end LinesHave

theorem linesHave_item (item : Option String × Scalar) :
    LinesHave ["    " ++ itemText item ++ ","] (itemTokens item ++ [.symbol .comma]) :=
  .comma 3 (by decide) fun _ hstop => reads_item item hstop

theorem linesHave_scalar (name : String) (v : Scalar) :
    LinesHave ["  " ++ key name ++ "=" ++ scalar v ++ ","] (fieldTokens (name, .one v)) := by
  have hline : LinesHave ["  " ++ (key name ++ "=" ++ scalar v) ++ ","] _ :=
    .comma 1 (by decide) fun _ hstop => reads_assignment name (stands_scalar v) hstop
  rw [fieldTokens, contentTokens]
  simpa only [String.append_assoc, List.append_assoc, List.cons_append] using hline

/-- A line that begins with a key and an opening brace. -/
theorem linesHave_braced (name : String) {text : String} {octets : List UInt8} {ts : List Token}
    (htext : encoded text.toList = 61 :: 123 :: octets)
    (h : ∀ rest, Reads (octets ++ 10 :: rest) ts (10 :: rest)) :
    LinesHave ["  " ++ key name ++ text]
      (keyTokens name ++ .symbol .assign :: .symbol .openBrace :: ts) := by
  have hindent : encoded "  ".toList = List.replicate 2 32 := by decide
  have hline : encoded ("  " ++ key name ++ text).toList =
      List.replicate 2 32 ++ (encoded (key name).toList ++ 61 :: 123 :: octets) := by
    rw [String.toList_append, String.toList_append, encoded_append, encoded_append, hindent,
      htext, List.append_assoc]
  refine .indented 1 hline fun rest => ?_
  rw [List.append_assoc]
  have hkey := (spells_key name (61 :: 123 :: (octets ++ 10 :: rest))
    (isStop_cons (by decide))).reads
  exact hkey.append ((Token.begins_assign (by decide)).append
    ((Token.begins_single (by simp) _).append (h rest)))

theorem linesHave_closing : LinesHave ["  \x7d,"] [.symbol .closeBrace, .symbol .comma] := by
  have hline : encoded "  \x7d,".toList = List.replicate 2 32 ++ [125, 44] := by decide
  exact .indented 1 hline fun _ => (Token.begins_single (by simp) _).append
    (Token.begins_single (by simp) _).reads

/-- The lines of a field have its tokens. -/
theorem linesHave_field (name : String) (c : Content) :
    LinesHave (c.rendition.lines name) (fieldTokens (name, c)) := by
  rcases c with v | _ | ⟨item, items⟩
  · exact linesHave_scalar name v
  · -- braces without items stay on one line
    have hempty : encoded "=\x7b\x7d,".toList = [61, 123, 125, 44] := by decide
    exact linesHave_braced name hempty fun _ => (Token.begins_single (by simp) _).append
      (Token.begins_single (by simp) _).reads
  · have hopen : encoded "=\x7b".toList = [61, 123] := by decide
    have hfirst := linesHave_braced name hopen fun _ => .done
    have hitems := LinesHave.flatMap linesHave_item (item :: items)
    have hall := (hfirst.append hitems).append linesHave_closing
    rw [← List.map_eq_flatMap] at hall
    simpa only [Content.rendition, Rendition.lines, List.map_map, List.map_cons, fieldTokens,
      contentTokens, itemsTokens, List.append_assoc, List.cons_append, List.nil_append,
      Function.comp_apply, Function.comp_def] using hall

/-! ### Scripts -/

/-- What the fields of a level hold, with their keys. -/
def contents (level : Level) (dialect : Dialect) : List (String × Content) :=
  dialect.fields.filterMap fun f => (content? f.kind (f.get level)).map fun c => (f.key, c)

/-- The items of a script's table. -/
def fieldsTokens (fields : List (String × Content)) : List Token := fields.flatMap fieldTokens

def scriptTokens (fields : List (String × Content)) : List Token :=
  [.keyword .kwReturn, .symbol .openBrace] ++ fieldsTokens fields ++ [.symbol .closeBrace]

theorem fieldLines_eq (level : Level) (dialect : Dialect) :
    dialect.fields.flatMap (fieldLines level) =
      (contents level dialect).flatMap fun (name, c) => c.rendition.lines name := by
  rw [contents]
  induction dialect.fields with
  | nil => rfl
  | cons f fields ih =>
    rw [List.flatMap_cons, ih, List.filterMap_cons, fieldLines, rendition_eq_content]
    cases content? f.kind (f.get level) <;> rfl

theorem encoded_lines (lines : List String) :
    encoded (String.join (lines.map (· ++ "\n"))).toList = lines.flatMap lineOctets := by
  have hend : encoded "\n".toList = [10] := by decide
  induction lines with
  | nil => rfl
  | cons line lines ih =>
    rw [List.map_cons, String.join_cons, String.toList_append, encoded_append, ih,
      String.toList_append, encoded_append, hend, List.flatMap_cons]
    rfl

theorem reads_return (rest : List UInt8) :
    Reads (encoded "return ".toList ++ rest) [.keyword .kwReturn] rest := by
  have htext : encoded "return ".toList = encoded ['r', 'e', 't', 'u', 'r', 'n'] ++ [32] := by
    decide
  have hword : Token.wordToken (String.ofList ['r', 'e', 't', 'u', 'r', 'n']) =
      .keyword .kwReturn := by decide
  have hread : Reads (encoded ['r', 'e', 't', 'u', 'r', 'n'] ++ 32 :: rest) _ (32 :: rest) :=
    (Token.begins_word rfl (List.all_eq_true.mp rfl) (isStop_cons (by decide))).reads
  rw [hword] at hread
  rw [htext, List.append_assoc]
  exact hread.append (.gap (Or.inl rfl) .done)

theorem linesHave_return : LinesHave ["return \x7b"] [.keyword .kwReturn, .symbol .openBrace] := by
  have hword : encoded "return ".toList = 114 :: [101, 116, 117, 114, 110, 32] := by decide
  have htext : encoded "return \x7b".toList = 114 :: [101, 116, 117, 114, 110, 32, 123] := by
    decide
  refine .single htext (by decide) fun rest => ?_
  have hbrace : Begins (123 :: 10 :: rest) (.symbol .openBrace) (10 :: rest) :=
    Token.begins_single (by simp) _
  have hread := (reads_return (123 :: 10 :: rest)).append hbrace.reads
  rw [hword] at hread
  exact hread

/-- The lines of a level's script have its tokens. -/
theorem linesHave_script (level : Level) (dialect : Dialect) :
    LinesHave (level.scriptLines dialect) (scriptTokens (contents level dialect)) := by
  have hlast : LinesHave ["\x7d"] [.symbol .closeBrace] := by
    have htext : encoded "\x7d".toList = 125 :: [] := by decide
    exact .single htext (by decide) fun _ => (Token.begins_single (by simp) _).reads
  have hfields := LinesHave.flatMap (fun field : String × Content =>
    linesHave_field field.1 field.2) (contents level dialect)
  rw [Level.scriptLines, fieldLines_eq]
  exact (linesHave_return.append hfields).append hlast

/-- The tokens of a level's script. -/
theorem reads_script (level : Level) (dialect : Dialect) :
    Reads (ofString (level.script dialect)).toList (scriptTokens (contents level dialect)) [] := by
  obtain ⟨hread, -⟩ := linesHave_script level dialect [] (by simp [IsLineStart])
  rw [toList_ofString, Level.script, encoded_lines]
  rwa [List.append_nil] at hread

end LuaConfig.Script
