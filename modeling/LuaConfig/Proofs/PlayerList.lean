/-
Lists of players, written and read again.

A list is read line by line, and neither how a line ends nor the white space at its ends matters
(`parse_eq`), so that a text read behind a line is read by itself (`parse_line`).

`parse_render` — reading a rendered list reads each of its names.  They come back as they are
exactly if each of them is a name (`IsName`), and what is read from any text are names.
-/
import LuaConfig.PlayerList
import Mathlib

namespace LuaConfig

namespace Text

/-! ### White space at the ends -/

theorem trim_append_blank {c : Char} (h : isBlank c) (text : List Char) :
    trim (text ++ [c]) = trim text := by
  rw [trim, trim, List.dropWhile_append]
  split
  · next hempty =>
    rw [List.isEmpty_iff.mp hempty, List.dropWhile_cons_of_pos h]
    rfl
  · rw [List.reverse_append, List.reverse_singleton, List.singleton_append,
      List.dropWhile_cons_of_pos h]

theorem trim_sublist (text : List Char) : (trim text).Sublist text :=
  (List.reverse_sublist.mpr (List.dropWhile_sublist _)).trans
    (by rw [List.reverse_reverse]; exact List.dropWhile_sublist _)

theorem trim_trim (text : List Char) : trim (trim text) = trim text := by
  -- what is left in the end begins as it did before, since only its end was taken off
  have hfront : (trim text).dropWhile isBlank = trim text := by
    have hprefix : trim text <+: text.dropWhile isBlank := by
      rw [trim, ← List.reverse_suffix, List.reverse_reverse]
      exact List.dropWhile_suffix _
    cases htrim : trim text with
    | nil => rfl
    | cons c rest =>
      obtain ⟨tail, htail⟩ := hprefix
      rw [htrim, List.cons_append] at htail
      have hc := List.head?_dropWhile_not isBlank text
      rw [← htail] at hc
      rw [List.dropWhile_cons_of_neg (by simpa using hc)]
  rw [trim, hfront, trim, List.reverse_reverse, List.dropWhile_idempotent]

end Text

namespace PlayerList

open Text

/-! ### Lines -/

/-- The name on a line, if there is one. -/
def name? (line : List Char) : Option String :=
  if (trim line).isEmpty then none else some (String.ofList (trim line))

theorem name_withoutReturn (line : List Char) : name? (withoutReturn line) = name? line := by
  have htrim : trim (withoutReturn line) = trim line := by
    unfold withoutReturn
    split
    · next h =>
      obtain ⟨front, rfl⟩ := List.getLast?_eq_some_iff.mp h
      rw [List.dropLast_concat, trim_append_blank (by decide)]
    · rfl
  rw [name?, name?, htrim]

theorem names_lines (text : List Char) :
    (lines text).filterMap name? = (text.splitOn '\n').filterMap name? := by
  have hended : ∀ pieces : List (List Char),
      (pieces.map withoutReturn).filterMap name? = pieces.filterMap name? := by
    intro pieces
    rw [List.filterMap_map]
    exact congrArg (List.filterMap · pieces) (funext name_withoutReturn)
  have hne := List.splitOn_ne_nil '\n' text
  have hpieces := List.dropLast_concat_getLast hne
  rw [lines, List.getLast?_eq_some_getLast hne]
  generalize (text.splitOn '\n').getLast hne = last at hpieces ⊢
  rw [← hpieces, List.filterMap_append, List.dropLast_concat]
  cases last with
  | nil =>
    rw [hended]
    exact (List.append_nil _).symm
  | cons c last => rw [List.filterMap_append, hended]

/-- The names in a text are those on its lines, whichever way these end. -/
theorem parse_eq (text : String) : parse text = (text.toList.splitOn '\n').filterMap name? := by
  rw [← names_lines, parse, List.filterMap_map]
  rfl

theorem parse_line (first rest : String) :
    parse (first ++ "\n" ++ rest) = parse first ++ parse rest := by
  have htext : (first ++ "\n" ++ rest).toList = first.toList ++ '\n' :: rest.toList := by
    rw [String.toList_append, String.toList_append, List.append_assoc]
    rfl
  rw [parse_eq, parse_eq, parse_eq, htext, List.splitOn_append_cons_self, List.filterMap_append]

/-! ### Names -/

/-- A name that a list can hold: it stands on one line, is not empty, and has no white space at its
ends. -/
structure IsName (name : String) : Prop where
  nonempty : name ≠ ""
  line : '\n' ∉ name.toList
  trimmed : trim name.toList = name.toList

theorem not_mem_of_mem_splitOn {text piece : List Char} {sep : Char}
    (h : piece ∈ text.splitOn sep) : sep ∉ piece := by
  -- a character that is no separator goes to the first piece of the rest
  induction text generalizing piece with
  | nil =>
    rw [List.splitOn_nil, List.mem_singleton] at h
    simp [h]
  | cons c text ih =>
    rw [List.splitOn_cons_eq_if_modifyHead] at h
    split at h
    · rcases List.mem_cons.mp h with rfl | h
      · simp
      · exact ih h
    · next hc =>
      cases hpieces : text.splitOn sep with
      | nil => exact absurd hpieces (List.splitOn_ne_nil _ _)
      | cons first more =>
        rw [hpieces, List.modifyHead_cons] at h
        rcases List.mem_cons.mp h with rfl | h
        · rw [List.mem_cons, not_or]
          exact ⟨fun heq => hc (by simp [heq]), ih (by simp [hpieces])⟩
        · exact ih (by simp [hpieces, h])

theorem isName_of_mem_parse {text name : String} (h : name ∈ parse text) : IsName name := by
  rw [parse_eq, List.mem_filterMap] at h
  obtain ⟨line, hline, hname⟩ := h
  unfold name? at hname
  split at hname
  · cases hname
  · next hne =>
    rw [Option.some.injEq] at hname
    subst hname
    refine ⟨fun h => hne ?_, fun h => ?_, ?_⟩
    · rw [String.ofList_eq_empty_iff.mp h]
      rfl
    · rw [String.toList_ofList] at h
      exact not_mem_of_mem_splitOn hline ((trim_sublist line).subset h)
    · rw [String.toList_ofList, trim_trim]

theorem parse_of_isName {name : String} (h : IsName name) : parse name = [name] := by
  have hne : name.toList ≠ [] := fun hnil => h.nonempty (String.toList_eq_nil_iff.mp hnil)
  have hname : name? name.toList = some name := by
    rw [name?, h.trimmed, if_neg (by simpa using hne), String.ofList_toList]
  rw [parse_eq, List.splitOn_eq_singleton h.line, List.filterMap_cons, hname]
  rfl

/-! ### Lists -/

theorem parse_render_eq (names : List String) : parse (render names) = names.flatMap parse := by
  induction names with
  | nil => rfl
  | cons name names ih =>
    rw [render, List.map_cons, String.join_cons, parse_line, List.flatMap_cons, ← ih]
    rfl

theorem parse_render_of_isName {names : List String} (h : ∀ name ∈ names, IsName name) :
    parse (render names) = names := by
  rw [parse_render_eq]
  induction names with
  | nil => rfl
  | cons name names ih =>
    rw [List.forall_mem_cons] at h
    rw [List.flatMap_cons, parse_of_isName h.1, ih h.2]
    rfl

/-- A rendered list is read as its names are read one by one, and comes back as it is exactly if
these are names.  So does every list that was read before. -/
theorem parse_render (names : List String) (content : String) :
    parse (render names) = names.flatMap parse ∧
    (parse (render names) = names ↔ ∀ name ∈ names, IsName name) ∧
    (∀ name ∈ parse content, IsName name) ∧
    parse (render (parse content)) = parse content := by
  refine ⟨parse_render_eq names, ⟨fun h name hname => ?_, parse_render_of_isName⟩,
    fun name => isName_of_mem_parse, parse_render_of_isName fun name => isName_of_mem_parse⟩
  have hmem : name ∈ parse (render names) := by rwa [h]
  exact isName_of_mem_parse hmem

/-- A name with a line feed inside comes back as two, each of them a name. -/
theorem parse_render_broken :
    parse (render ["a\nb ", "c"]) = ["a", "b", "c"] ∧
    ¬ (∀ name ∈ ["a\nb ", "c"], IsName name) ∧ IsName "b" := by
  have hlist : parse (render ["a\nb ", "c"]) = ["a", "b", "c"] :=
    (parse_render ["a\nb ", "c"] "").1.trans (by decide +kernel)
  refine ⟨hlist, fun h => ?_, (parse_render [] "a\nb ").2.2.1 "b" (by decide +kernel)⟩
  rw [(parse_render ["a\nb ", "c"] "").2.1.mpr h] at hlist
  exact absurd hlist (by decide)

-- other characters that end a line elsewhere are white space, and break no name in two
example : parse "a\r\n b\u2028c\u0085\n\r\nd\re\r" = ["a", "b\u2028c", "d\re"] := by
  decide +kernel

end PlayerList

end LuaConfig
