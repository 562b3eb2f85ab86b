/-
Strings and keys among the text around them.

`quoted_closed` — a quoted string is one token that holds the octets of the text, and the reading
goes on behind it, whatever stands there.  So the tokens of a script are those of the level's
contents, and each string of the level is a token by itself.

`key_item` — what is assigned to a key is read as the item of that key.  A key stands bare exactly
if it is read as a name, and no two names have one key.
-/
import LuaConfig.Proofs.Lua.Lexeme
import LuaConfig.Proofs.Lua.Reader
import LuaConfig.Proofs.Script.Tokens

namespace LuaConfig

/-- The reader before a text that begins on a line, when everything up to there has been read. -/
def Lua.Reader.before (chunk : String) (line : Nat) (text : List UInt8) (depth : Nat)
    (functions : List Lua.FunctionScope) : Lua.Reader :=
  ⟨chunk, Lua.Token.lexemes line text, line, depth, functions⟩

namespace Script

open Lua Lua.Octets
open Lua.Parse (expr item constructor)
open Lua.Token (Begins Spells IsNameOctets IsStop lexemes)

/-! ### Strings -/

/-- A quoted string is read to its end and no further.  The tokens of a script are those of what
the fields of the level hold. -/
theorem quoted_closed (text : String) (rest : List UInt8) (fuel line : Nat) (level : Level)
    (dialect : Dialect) :
    Token.scan (fuel + 1) line ((ofString (quoted text)).toList ++ rest) =
      ⟨.string (ofString text), line, rest⟩ ∧
    lexemes line ((ofString (quoted text)).toList ++ rest) =
      ⟨.string (ofString text), line⟩ :: lexemes line rest ∧
    (Token.list (ofString (level.script dialect))).map (·.token) =
      scriptTokens (contents level dialect) ++ [.done] := by
  have hbegins := begins_quoted text rest
  rw [toList_ofString]
  exact ⟨hbegins.scan fuel line, hbegins.lexemes line, (reads_script level dialect).list⟩

/-! ### Keys that stand bare -/

theorem nameRest_ascii : ∀ b : UInt8, Octets.isNameRest b = true → b.toNat < 128 := by
  decide +kernel

/-- Octets that are read as a name are those of a name. -/
theorem isName_of_octets {name : String} (h : IsNameOctets (encoded name.toList)) :
    isName name := by
  -- a character beyond ASCII is written with octets that no name has
  have hascii : ∀ c ∈ name.toList, c.toNat < 128 := by
    intro c hc
    by_contra hge
    cases hoctets : String.utf8EncodeChar c with
    | nil => exact absurd hoctets String.utf8EncodeChar_ne_nil
    | cons b octets =>
      have hb : b ∈ String.utf8EncodeChar c := by simp [hoctets]
      have := le_of_mem_encodeChar (not_lt.mp hge) hb
      have := nameRest_ascii b (h.all b (List.mem_flatMap.mpr ⟨c, hc, hb⟩))
      omega
  obtain ⟨⟨b, hhead, hstart⟩, hall, hfree⟩ := h
  rw [chars_encoded hascii, String.ofList_toList] at hfree
  rw [encoded_ascii hascii] at hhead hall
  cases hname : name.toList with
  | nil =>
    rw [hname] at hhead
    cases hhead
  | cons c cs =>
    rw [hname] at hhead hall hascii
    rw [List.forall_mem_map] at hall
    rw [List.forall_mem_cons] at hall hascii
    cases hhead
    rw [Token.isNameStart_octet hascii.1] at hstart
    have hrest : cs.all isNameRest = true := by
      rw [List.all_eq_true]
      exact fun d hd => Token.isNameRest_octet (hascii.2 d hd) ▸ hall.2 d hd
    simp only [isName, hname, hstart, hrest, hfree, Option.isNone_none, Bool.and_self]

theorem list_name_iff (name : String) :
    Token.list (ofString name) = [⟨.name (ofString name), 1⟩, ⟨.done, 1⟩] ↔ isName name := by
  have hlist : Token.list (ofString name) = lexemes 1 (encoded name.toList) := by
    rw [← toList_ofString]
    rfl
  rw [hlist]
  constructor
  · intro h
    obtain ⟨before, word, htext, hword, hoctets⟩ :=
      Token.scan_name (Token.scan_of_lexemes h)
    have hall : word = encoded name.toList := by
      rw [← toList_ofString, hword, toList_ofList]
    exact isName_of_octets (hall ▸ hoctets)
  · intro h
    have hbegins := Token.begins_name h isStop_nil
    rw [List.append_nil] at hbegins
    exact hbegins.lexemes 1

theorem length_le_quoted (name : String) : name.length + 2 ≤ (quoted name).length := by
  have hescape : ∀ cs : List Char, cs.length ≤ (cs.flatMap escape).length := by
    intro cs
    induction cs with
    | nil => exact le_rfl
    | cons c cs ih =>
      have hc : 1 ≤ (escape c).length := by
        unfold escape
        split_ifs <;> simp
      rw [List.flatMap_cons, List.length_append, List.length_cons]
      omega
  have := hescape name.toList
  rw [quoted, String.length_ofList, List.length_cons, List.length_append, List.length_singleton,
    ← String.length_toList]
  omega

theorem key_eq_self_iff (name : String) : key name = name ↔ isName name := by
  rw [key, isIdentifier_eq_isName]
  split
  · next h => exact ⟨fun _ => h, fun _ => rfl⟩
  · next h =>
    refine ⟨fun heq => ?_, fun hname => absurd hname h⟩
    -- brackets and quotes make the key longer than the name
    have hlength := congrArg String.length heq
    have := length_le_quoted name
    rw [String.length_append, String.length_append] at hlength
    omega

/-! ### Keys that differ -/

theorem lexemes_key (name : String) (line : Nat) :
    lexemes line (encoded (key name).toList) =
      (keyTokens name).map (⟨·, line⟩) ++ [⟨.done, line⟩] := by
  have hspells := (spells_key name [] isStop_nil).lexemes line
  rw [List.append_nil] at hspells
  exact hspells

theorem keyTokens_inj {a b : String} (h : keyTokens a = keyTokens b) : a = b := by
  unfold keyTokens at h
  split at h <;> split at h
  · exact ofString_inj (by simpa using h)
  · simp at h
  · simp at h
  · exact ofString_inj (by simpa using h)

theorem key_inj {a b : String} (h : key a = key b) : a = b := by
  have hlexemes := lexemes_key a 1
  rw [h, lexemes_key b 1] at hlexemes
  have htokens := congrArg (List.map Lexeme.token) (List.append_cancel_right hlexemes)
  simp only [List.map_map, Function.comp_def, List.map_id'] at htokens
  exact keyTokens_inj htokens.symm

/-! ### What is assigned to a key -/

section Assigned

variable {chunk : String} {line n d fuel : Nat} {fs : List FunctionScope} {v : Expr} {r : Reader}

theorem run_item_key (name : String) {t : Lexeme} {ts : List Lexeme} (ht : t.token ≠ .malformed)
    (hv : (expr fuel).run ⟨chunk, t :: ts, line, d, fs⟩ = .ok (v, r)) :
    (item (fuel + 1)).run
        ⟨chunk, (keyTokens name ++ [Token.symbol .assign]).map (⟨·, line⟩) ++ t :: ts, n, d, fs⟩ =
      .ok (.keyed (.const (.str (ofString name))) v r.lastLine, r) := by
  unfold keyTokens
  split
  · exact Parse.run_item_name ht hv
  · exact Parse.run_item_bracket (k := .string (ofString name)) rfl ht hv

/-- The braces of a table around a key and what is assigned to it. -/
theorem run_constructor_key (name : String) {chunk' : String} {n' d' line' : Nat}
    {fs' : List FunctionScope} {t u : Lexeme} {ts us : List Lexeme} (ht : t.token ≠ .malformed)
    (hu : u.token ≠ .malformed)
    (hv : (expr fuel).run ⟨chunk, t :: ts, line, d, fs⟩ =
      .ok (v, ⟨chunk', ⟨.symbol .closeBrace, line'⟩ :: u :: us, n', d', fs'⟩)) :
    (constructor (fuel + 3)).run
        ⟨chunk, ⟨.symbol .openBrace, line⟩ ::
          ((keyTokens name ++ [Token.symbol .assign]).map (⟨·, line⟩) ++ t :: ts), n, d, fs⟩ =
      .ok (.table [.keyed (.const (.str (ofString name))) v n'] line,
        ⟨chunk', u :: us, line', d', fs'⟩) := by
  have hitem := run_item_key name (n := line) ht hv
  obtain ⟨first, more, hkey, hclose, hsound⟩ := keyTokens_head name
  rw [hkey] at hitem ⊢
  exact Parse.run_constructor_item hsound hclose hu hitem

/-- Neither the end of a text nor what is no token begins an expression, and no sign with the sign
of an assignment at its head does. -/
theorem beginsNone_of_mem {t : Token}
    (h : t ∈ [.done, .malformed, .symbol .assign, .symbol .equal]) : Parse.BeginsNone t := by
  simp only [List.mem_cons, List.not_mem_nil, or_false] at h
  obtain rfl | rfl | rfl | rfl := h <;> exact ⟨rfl, rfl, by simp, by simp, by simp⟩

theorem not_beginsNone_of_run {t : Lexeme} {ts : List Lexeme}
    (h : (expr fuel).run ⟨chunk, t :: ts, n, d, fs⟩ = .ok (v, r)) :
    ¬ Parse.BeginsNone t.token := by
  intro hnone
  obtain ⟨fault, hfault⟩ := Parse.fails_expr hnone fuel
  rw [h] at hfault
  cases hfault

/-- A text whose first token may begin an expression does not begin with the sign of an
assignment. -/
theorem head_ne_assign {text : List UInt8} {t : Lexeme} {ts : List Lexeme}
    (htext : lexemes line text = t :: ts) (h : ¬ Parse.BeginsNone t.token) :
    ∃ b rest, text = b :: rest ∧ b ≠ 61 := by
  -- each text that has the sign at its head begins with one of these
  have hnot : ∀ u ∈ [Token.done, .malformed, .symbol .assign, .symbol .equal], t.token ≠ u :=
    fun u hu heq => h (heq ▸ beginsNone_of_mem hu)
  have hother : ∀ {u : Token} {rest : List UInt8}, Begins text u rest → t.token = u := by
    intro u rest hbegins
    rw [hbegins.lexemes] at htext
    rw [← (List.cons.inj htext).1]
  match text with
  | [] =>
    obtain ⟨rfl, -⟩ := List.cons.inj htext
    exact absurd rfl (hnot .done (by simp))
  | [b] =>
    refine ⟨b, [], rfl, ?_⟩
    rintro rfl
    obtain ⟨rfl, -⟩ := List.cons.inj htext
    exact absurd rfl (hnot (.symbol .assign) (by simp))
  | b :: c :: rest =>
    refine ⟨b, c :: rest, rfl, ?_⟩
    rintro rfl
    by_cases hc : c = 61
    · subst hc
      exact absurd (hother (Token.begins_equal rest)) (hnot _ (by simp))
    · exact absurd (hother (Token.begins_assign hc)) (hnot _ (by simp))

/-- Where an expression is read from a text, the text with a key assigned in front of it is read as
the item that has the key and the expression, up to the same place, and in braces it is a table of
that item alone.  A key is the name itself exactly if the name is read as one token of its own, and
it tells its name. -/
theorem key_item (name : String) :
    (∀ (chunk : String) (line d fuel : Nat) (fs : List FunctionScope) (text : List UInt8) (v : Expr)
      (r : Reader), (expr fuel).run (Reader.before chunk line text d fs) = .ok (v, r) →
      (item (fuel + 1)).run
          (Reader.before chunk line ((ofString (key name ++ "=")).toList ++ text) d fs) =
        .ok (.keyed (.const (.str (ofString name))) v r.lastLine, r) ∧
      ∀ close after more, r.tokens = ⟨.symbol .closeBrace, close⟩ :: after :: more →
        after.token ≠ .malformed →
        (constructor (fuel + 3)).run (Reader.before chunk line
            ((ofString ("\x7b" ++ (key name ++ "="))).toList ++ text) d fs) =
          .ok (.table [.keyed (.const (.str (ofString name))) v r.lastLine] line,
            { r with tokens := after :: more, lastLine := close })) ∧
    (key name = name ↔
      Token.list (ofString name) = [⟨.name (ofString name), 1⟩, ⟨.done, 1⟩]) ∧
    ∀ other, key other = key name → other = name := by
  refine ⟨fun chunk line d fuel fs text v r h => ?_, ?_, fun _ => key_inj⟩
  · obtain ⟨t, ts, htext⟩ := List.exists_cons_of_ne_nil (Token.lexemes_ne_nil line text)
    rw [Reader.before, htext] at h
    -- the sign of the assignment is a token by itself: the text does not begin with another such
    have hbegins := not_beginsNone_of_run h
    have hsound : t.token ≠ .malformed := fun heq => hbegins (heq ▸ beginsNone_of_mem (by simp))
    obtain ⟨b, rest, rfl, hb⟩ := head_ne_assign htext hbegins
    have hspells := (spells_assigned name hb rest).lexemes line
    rw [htext] at hspells
    refine ⟨?_, fun close after more hclose hafter => ?_⟩
    · rw [Reader.before, toList_ofString, hspells]
      exact run_item_key name hsound h
    · have hopen : encoded "\x7b".toList = [123] := by decide
      have hbrace := (Token.begins_single (b := 123) (s := .openBrace) (by simp)
        (encoded (key name ++ "=").toList ++ b :: rest)).lexemes line
      obtain ⟨chunk', tokens, n', d', fs'⟩ := r
      obtain rfl : tokens = _ := hclose
      rw [Reader.before, toList_ofString, String.toList_append, encoded_append, hopen,
        List.singleton_append, List.cons_append, hbrace, hspells]
      exact run_constructor_key name hsound hafter h
  · rw [key_eq_self_iff, list_name_iff]

/-- A reserved word stands in brackets before an expression that ends on the next line. -/
theorem key_item_reserved :
    key "end" = "[\"end\"]" ∧
    (expr 4).run (Reader.before "keys" 1 (encoded "not nil --[[,]]\n\x7d".toList) 0 []) =
      .ok (.unary .not (.const .nil) 1,
        ⟨"keys", [⟨.symbol .closeBrace, 2⟩, ⟨.done, 2⟩], 1, 0, []⟩) ∧
    (item 5).run (Reader.before "keys" 1
        ((ofString (key "end" ++ "=")).toList ++ encoded "not nil --[[,]]\n\x7d".toList) 0 []) =
      .ok (.keyed (.const (.str (ofString "end"))) (.unary .not (.const .nil) 1) 1,
        ⟨"keys", [⟨.symbol .closeBrace, 2⟩, ⟨.done, 2⟩], 1, 0, []⟩) ∧
    (constructor 7).run (Reader.before "keys" 1
        ((ofString ("\x7b" ++ (key "end" ++ "="))).toList ++
          encoded "not nil --[[,]]\n\x7d".toList) 0 []) =
      .ok (.table [.keyed (.const (.str (ofString "end"))) (.unary .not (.const .nil) 1) 1] 1,
        ⟨"keys", [⟨.done, 2⟩], 2, 0, []⟩) := by
  have h : (expr 4).run (Reader.before "keys" 1 (encoded "not nil --[[,]]\n\x7d".toList) 0 []) =
      .ok (.unary .not (.const .nil) 1,
        ⟨"keys", [⟨.symbol .closeBrace, 2⟩, ⟨.done, 2⟩], 1, 0, []⟩) := rfl
  obtain ⟨hitem, htable⟩ := (key_item "end").1 "keys" 1 0 4 [] _ _ _ h
  exact ⟨by decide, h, hitem, htable 2 ⟨.done, 2⟩ [] rfl (by simp)⟩

end Assigned

end Script

end LuaConfig
