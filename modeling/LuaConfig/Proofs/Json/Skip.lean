/-
Values that are passed over.

Arrays and objects are gone through by the same steps whether their values are read or passed over
(`nextElement_item`, `nextMember_member`, and the lemmas about their ends).  The main statement is
`skip_text`: the text of every document, in every layout and at any depth, is passed over.
-/
import LuaConfig.Proofs.Json.Number
import LuaConfig.Proofs.Json.String

namespace LuaConfig.Json

open Decimal

/-! ### The first character of a value -/

/-- A character with which values begin: neither a blank nor a closing bracket. -/
def Opens (c : Char) : Prop := ¬ isBlank c ∧ c ≠ ']'

theorem opens_of_number {c : Char} (h : c = '-' ∨ c.isDigit) : Opens c :=
  ⟨not_isBlank_of_number h, ne_of_number h (by decide)⟩

theorem floatText_cases (x : Float) :
    NumberText (floatText x).toList ∨ floatText x = "null" := by
  by_cases h : (Binary64.ofFloat x).isFinite
  · exact .inl (numberText_floatText h)
  · refine .inr ?_
    unfold floatText
    cases hx : Binary64.ofFloat x with
    | finite => exact absurd (by rw [hx]; rfl) h
    | nan => rfl
    | infinite => rfl

theorem exists_text_eq_cons (layout : Layout) (depth : Nat) (d : Json) :
    ∃ c cs, layout.text depth d = c :: cs ∧ Opens c := by
  have hnumber : ∀ {text : List Char}, NumberText text → ∃ c cs, text = c :: cs ∧ Opens c := by
    intro text h
    obtain ⟨c, cs, rfl, hc⟩ := h.exists_eq_cons
    exact ⟨c, cs, rfl, opens_of_number hc⟩
  cases d with
  | array items => exact ⟨'[', _, by rw [Layout.text], by decide, by decide⟩
  | object members => exact ⟨'\x7b', _, by rw [Layout.text], by decide, by decide⟩
  | null => exact ⟨'n', _, Layout.text_null layout depth, by decide, by decide⟩
  | bool b =>
    rw [Layout.text_bool]
    cases b with
    | true => exact ⟨'t', _, rfl, by decide, by decide⟩
    | false => exact ⟨'f', _, rfl, by decide, by decide⟩
  | integer n => simpa using hnumber (numberText_repr n)
  | float x =>
    rw [Layout.text_float]
    rcases floatText_cases x with h | h
    · exact hnumber h
    · exact ⟨'n', ['u', 'l', 'l'], by rw [h]; rfl, by decide, by decide⟩
  | string s => exact ⟨'"', _, (Layout.text_string layout depth s).trans (toList_quoted s), by decide, by decide⟩

/-! ### Elements and members -/

theorem nextElement_item (first : Bool) {blanks : List Char} (h : Blank blanks) {c : Char}
    (hc : Opens c) (text : List Char) :
    nextElement first (Layout.separator first ++ (blanks ++ c :: text)) = .ok (true, c :: text) := by
  have hskip := skipBlank_append_cons h hc.1 text
  cases first with
  | true => simp [nextElement, Layout.separator, hskip, hc.2]
  | false =>
    have hcomma : skipBlank (',' :: (blanks ++ c :: text)) = ',' :: (blanks ++ c :: text) :=
      skipBlank_cons (by decide) _
    simp [nextElement, Layout.separator, hskip, hc.2, hcomma]

/-- The next element begins with the text of its document. -/
theorem nextElement_text (layout : Layout) (first : Bool) (depth : Nat) (d : Json)
    (rest : List Char) :
    nextElement first
        (Layout.separator first ++ (layout.gap depth ++ (layout.text depth d ++ rest))) =
      .ok (true, layout.text depth d ++ rest) := by
  obtain ⟨c, cs, htext, hc⟩ := exists_text_eq_cons layout depth d
  rw [htext, List.cons_append]
  exact nextElement_item first (layout.blank_gap depth) hc (cs ++ rest)

theorem nextElement_end (first : Bool) {blanks : List Char} (h : Blank blanks)
    (rest : List Char) : nextElement first (blanks ++ ']' :: rest) = .ok (false, rest) := by
  have hskip := skipBlank_append_cons h (c := ']') (by decide) rest
  simp [nextElement, hskip]

theorem nextMember_member (first : Bool) {blanks : List Char} (h : Blank blanks)
    (text : List Char) :
    nextMember first (Layout.separator first ++ (blanks ++ '"' :: text)) = .ok (true, text) := by
  have hskip := skipBlank_append_cons h (c := '"') (by decide) text
  cases first with
  | true => simp [nextMember, Layout.separator, hskip]
  | false =>
    have hcomma : skipBlank (',' :: (blanks ++ '"' :: text)) = ',' :: (blanks ++ '"' :: text) :=
      skipBlank_cons (by decide) _
    simp [nextMember, Layout.separator, hskip, hcomma]

theorem nextMember_end (first : Bool) {blanks : List Char} (h : Blank blanks)
    (rest : List Char) : nextMember first (blanks ++ '\x7d' :: rest) = .ok (false, rest) := by
  have hskip := skipBlank_append_cons h (c := '\x7d') (by decide) rest
  simp [nextMember, hskip]

theorem readColon_cons (rest : List Char) : readColon (':' :: rest) = .ok rest := rfl

/-- The text of an element and of what follows it. -/
theorem items_cons (layout : Layout) (first : Bool) (depth : Nat) (item : Json)
    (items : List Json) (rest : List Char) :
    layout.items first depth (item :: items) ++ rest =
      Layout.separator first ++ (layout.gap depth ++ (layout.text depth item ++
        (layout.items false depth items ++ rest))) := by
  simp only [Layout.items, List.append_assoc]

/-- The text of a member and of what follows it. -/
theorem members_cons (layout : Layout) (first : Bool) (depth : Nat) (name : String) (value : Json)
    (members : List (String × Json)) (rest : List Char) :
    layout.members first depth ((name, value) :: members) ++ rest =
      Layout.separator first ++ (layout.gap depth ++ '"' :: (name.toList.flatMap escape ++
        '"' :: ':' :: (layout.space ++ (layout.text depth value ++
          (layout.members false depth members ++ rest))))) := by
  simp only [Layout.members, toList_quoted, List.append_assoc, List.cons_append, List.nil_append]

theorem length_text_pos (layout : Layout) (depth : Nat) (d : Json) :
    0 < (layout.text depth d).length := by
  obtain ⟨c, cs, htext, -⟩ := exists_text_eq_cons layout depth d
  simp [htext]

/-- The rest of an array stops the value in front of it. -/
theorem stops_items (layout : Layout) (depth : Nat) (items : List Json) {blanks : List Char}
    (h : Blank blanks) (rest : List Char) :
    Stops (layout.items false depth items ++ (blanks ++ ']' :: rest)) := by
  cases items with
  | nil => simpa [Layout.items] using (stops_bracket rest).after h
  | cons item items => exact stops_comma _

theorem stops_members (layout : Layout) (depth : Nat) (members : List (String × Json))
    {blanks : List Char} (h : Blank blanks) (rest : List Char) :
    Stops (layout.members false depth members ++ (blanks ++ '\x7d' :: rest)) := by
  cases members with
  | nil => simpa [Layout.members] using (stops_brace rest).after h
  | cons member members => exact stops_comma _

/-! ### Skipping -/

theorem skipValue_number {blanks text rest : List Char} (hblank : Blank blanks)
    (h : NumberText text) (hrest : Stops rest) (fuel : Nat) :
    skipValue (fuel + 1) (blanks ++ (text ++ rest)) = .ok rest := by
  have hskip := skipNumber_text h hrest
  obtain ⟨c, cs, rfl, hc⟩ := h.exists_eq_cons
  have hword : c ≠ 'n' ∧ c ≠ 't' ∧ c ≠ 'f' :=
    ⟨ne_of_number hc (by decide), ne_of_number hc (by decide), ne_of_number hc (by decide)⟩
  rw [skipValue, List.cons_append, skipBlank_append_cons hblank (not_isBlank_of_number hc)]
  simpa [hword, startsNumber_of hc] using hskip

theorem skipValue_null {blanks : List Char} (hblank : Blank blanks) (rest : List Char)
    (fuel : Nat) : skipValue (fuel + 1) (blanks ++ 'n' :: 'u' :: 'l' :: 'l' :: rest) = .ok rest := by
  rw [skipValue, skipBlank_append_cons hblank (by decide)]
  rfl

theorem skipValue_string {blanks : List Char} (hblank : Blank blanks) (s : String)
    (rest : List Char) (fuel : Nat) :
    skipValue (fuel + 1) (blanks ++ ((quoted s).toList ++ rest)) = .ok rest := by
  have hskip := skipString_quoted s rest
  rw [skipValue, toList_quoted, List.cons_append, skipBlank_append_cons hblank (by decide)]
  simpa [startsNumber, Decimal.digit?] using hskip

section

variable (layout : Layout)

/-- A value that is neither array nor object is passed over in one step. -/
theorem skipValue_leaf {blanks rest : List Char} (hblank : Blank blanks) (hrest : Stops rest)
    (fuel depth : Nat) {d : Json} (harray : ∀ items, d ≠ .array items)
    (hobject : ∀ members, d ≠ .object members) :
    skipValue (fuel + 1) (blanks ++ (layout.text depth d ++ rest)) = .ok rest := by
  cases d with
  | array items => exact absurd rfl (harray items)
  | object members => exact absurd rfl (hobject members)
  | null => simpa using skipValue_null hblank rest fuel
  | bool b =>
    rw [Layout.text_bool]
    cases b with
    | true =>
      rw [if_pos rfl, List.cons_append, skipValue, skipBlank_append_cons hblank (by decide)]
      rfl
    | false =>
      rw [if_neg Bool.false_ne_true, List.cons_append, skipValue,
        skipBlank_append_cons hblank (by decide)]
      rfl
  | integer n => simpa using skipValue_number hblank (numberText_repr n) hrest fuel
  | float x =>
    rw [Layout.text_float]
    rcases floatText_cases x with hx | hx
    · exact skipValue_number hblank hx hrest fuel
    · simpa [hx] using skipValue_null hblank rest fuel
  | string s => simpa using skipValue_string hblank s rest fuel

mutual

/-- The text of a document is passed over with as many steps as it has characters. -/
theorem skipValue_text {blanks rest : List Char} (hblank : Blank blanks) (hrest : Stops rest)
    (fuel depth : Nat) :
    ∀ d : Json, (layout.text depth d).length ≤ fuel + 1 →
      skipValue (fuel + 1) (blanks ++ (layout.text depth d ++ rest)) = .ok rest
  | .array items => by
    intro h
    rw [Layout.text] at h ⊢
    simp only [List.length_cons, List.length_append] at h
    have hitems := skipElements_items (layout.blank_closing items.isEmpty depth) rest fuel
      (depth + 1) true items (by omega)
    rw [skipValue, List.cons_append, skipBlank_append_cons hblank (by decide)]
    simpa [startsNumber, Decimal.digit?] using hitems
  | .object members => by
    intro h
    rw [Layout.text] at h ⊢
    simp only [List.length_cons, List.length_append] at h
    have hmembers := skipMembers_members (layout.blank_closing members.isEmpty depth) rest fuel
      (depth + 1) true members (by omega)
    rw [skipValue, List.cons_append, skipBlank_append_cons hblank (by decide)]
    simpa [startsNumber, Decimal.digit?] using hmembers
  | .null => fun _ => skipValue_leaf layout hblank hrest fuel depth nofun nofun
  | .bool _ => fun _ => skipValue_leaf layout hblank hrest fuel depth nofun nofun
  | .integer _ => fun _ => skipValue_leaf layout hblank hrest fuel depth nofun nofun
  | .float _ => fun _ => skipValue_leaf layout hblank hrest fuel depth nofun nofun
  | .string _ => fun _ => skipValue_leaf layout hblank hrest fuel depth nofun nofun

theorem skipElements_items {blanks : List Char} (hblank : Blank blanks) (rest : List Char)
    (fuel depth : Nat) (first : Bool) :
    ∀ items : List Json, (layout.items first depth items).length < fuel →
      skipElements fuel first (layout.items first depth items ++ (blanks ++ ']' :: rest)) = .ok rest
  | [], h => by
    obtain ⟨fuel, rfl⟩ := Nat.exists_eq_succ_of_ne_zero (Nat.ne_of_gt (Nat.zero_lt_of_lt h))
    rw [Layout.items, List.nil_append, skipElements, nextElement_end first hblank]
  | item :: items, h => by
    have hpos := length_text_pos layout depth item
    simp only [Layout.items, List.length_append] at h
    obtain ⟨fuel, rfl⟩ := Nat.exists_eq_add_of_le' (show 2 ≤ fuel by omega)
    have hitem := skipValue_text blank_nil (stops_items layout depth items hblank rest) fuel depth
      item (by omega)
    have hitems := skipElements_items hblank rest (fuel + 1) depth false items (by omega)
    rw [List.nil_append] at hitem
    rw [items_cons, skipElements, nextElement_text]
    simp only [hitem, hitems]

theorem skipMembers_members {blanks : List Char} (hblank : Blank blanks) (rest : List Char)
    (fuel depth : Nat) (first : Bool) :
    ∀ members : List (String × Json), (layout.members first depth members).length < fuel →
      skipMembers fuel first (layout.members first depth members ++ (blanks ++ '\x7d' :: rest)) =
        .ok rest
  | [], h => by
    obtain ⟨fuel, rfl⟩ := Nat.exists_eq_succ_of_ne_zero (Nat.ne_of_gt (Nat.zero_lt_of_lt h))
    rw [Layout.members, List.nil_append, skipMembers, nextMember_end first hblank]
  | (name, value) :: members, h => by
    simp only [Layout.members, List.length_append, List.length_cons, List.length_nil] at h
    obtain ⟨fuel, rfl⟩ := Nat.exists_eq_add_of_le' (show 2 ≤ fuel by omega)
    have hvalue := skipValue_text layout.blank_space
      (stops_members layout depth members hblank rest) fuel depth value (by omega)
    have hmembers := skipMembers_members hblank rest (fuel + 1) depth false members (by omega)
    rw [members_cons, skipMembers, nextMember_member first (layout.blank_gap depth)]
    simp only [skipString_quoted, readColon_cons, hvalue, hmembers]

end

/-- The text of a document is passed over. -/
theorem skip_text (depth : Nat) (d : Json) {blanks rest : List Char} (hblank : Blank blanks)
    (hrest : Stops rest) : skip (blanks ++ (layout.text depth d ++ rest)) = .ok rest := by
  rw [skip]
  exact skipValue_text layout hblank hrest _ depth d (by simp only [List.length_append]; omega)

end

end LuaConfig.Json
