/-
Lines of scripts.

The texts of scalars and keys have no control character in them (`printable_scalar`,
`printable_key`), hence no end of a line, so that the lines that are joined to a text can be told
from it.

Main statement:
* `eq_of_block` — a text that begins with the block of a field tells the elements of the block.
-/
import LuaConfig.Proofs.Decimal.Plain
import LuaConfig.Script.Level

namespace LuaConfig.Script

open Decimal

/-- A text without control characters of ASCII. -/
def Printable (s : String) : Prop := ∀ c ∈ s.toList, isControl c = false

instance (s : String) : Decidable (Printable s) :=
  List.decidableBAll (isControl · = false) s.toList

theorem Printable.append {s t : String} (hs : Printable s) (ht : Printable t) :
    Printable (s ++ t) := by
  intro c hc
  rw [String.toList_append, List.mem_append] at hc
  exact hc.elim (hs c) (ht c)

/-- A text without the end of a line in it. -/
def OneLine (s : String) : Prop := '\n' ∉ s.toList

instance (s : String) : Decidable (OneLine s) := inferInstanceAs (Decidable (¬ _))

theorem OneLine.append {s t : String} (hs : OneLine s) (ht : OneLine t) : OneLine (s ++ t) := by
  rw [OneLine, String.toList_append, List.mem_append]
  exact not_or.mpr ⟨hs, ht⟩

/-- The end of a line is a control character. -/
theorem Printable.oneLine {s : String} (h : Printable s) : OneLine s := by
  intro hmem
  have hcontrol := h _ hmem
  revert hcontrol
  decide

/-! ### Scalars -/

theorem isControl_of_range {c : Char} (hlow : 32 ≤ c.toNat) (hhigh : c.toNat < 127) :
    isControl c = false := by
  rw [isControl, decide_eq_false_iff_not]
  omega

theorem printable_switch (b : Bool) : Printable (switch b) := by
  cases b <;> decide

theorem isControl_digitChar {n : Nat} (h : n < 10) : isControl (digitChar n) = false := by
  interval_cases n <;> decide

/-- What stands for a character is none of the control characters, even where that is one. -/
theorem isControl_of_mem_escape {c d : Char} (h : d ∈ escape c) : isControl d = false := by
  unfold escape at h
  split_ifs at h with h1 h2 h3 h4 h5 h6
  all_goals simp only [List.mem_cons, List.not_mem_nil, or_false] at h
  · rcases h with rfl | rfl <;> decide
  · rcases h with rfl | rfl <;> decide
  · rcases h with rfl | rfl <;> decide
  · rcases h with rfl | rfl <;> decide
  · rcases h with rfl | rfl <;> decide
  · -- three digits, which are digits since the character is one of ASCII
    have hsmall : c.toNat < 128 := by
      simp only [isControl, decide_eq_true_eq] at h6
      omega
    rcases h with rfl | rfl | rfl | rfl
    · decide
    · exact isControl_digitChar (by omega)
    · exact isControl_digitChar (by omega)
    · exact isControl_digitChar (by omega)
  · rw [h]
    exact Bool.eq_false_iff.mpr h6

theorem printable_quoted (text : String) : Printable (quoted text) := by
  intro c hc
  rw [quoted, String.toList_ofList, List.mem_cons, List.mem_append, List.mem_flatMap,
    List.mem_singleton] at hc
  rcases hc with rfl | ⟨d, -, hd⟩ | rfl
  · decide
  · exact isControl_of_mem_escape hd
  · decide

theorem isControl_of_isDigit {c : Char} (h : c.isDigit) : isControl c = false := by
  have hrange : 48 ≤ c.toNat ∧ c.toNat ≤ 57 := by
    simpa [Char.isDigit, UInt32.le_iff_toNat_le] using h
  exact isControl_of_range (by omega) (by omega)

theorem isControl_of_positional {text : List Char} {r : ℚ} (h : Positional text r) :
    ∀ c ∈ text, isControl c = false := by
  cases h with
  | whole hne hd => exact fun c hc => isControl_of_isDigit (hd c hc)
  | pointed hne hd hf =>
    intro c hc
    rcases List.mem_append.mp hc with hc | hc
    · exact isControl_of_isDigit (hd c hc)
    · rcases List.mem_cons.mp hc with rfl | hc
      · decide
      · exact isControl_of_isDigit (hf c hc)

theorem printable_signed (negative : Bool) {text : String} (h : Printable text) :
    Printable (signed negative text) := by
  cases negative with
  | false => exact h
  | true => exact Printable.append (s := "-") (by decide) h

theorem printable_number (x : Float) : Printable (number x) := by
  unfold number
  cases hx : Binary64.ofFloat x with
  | nan => exact (by decide : Printable "0/0")
  | infinite negative => exact printable_signed negative (by decide)
  | finite negative m q =>
    show Printable (plain x)
    rw [plain_finite hx]
    refine printable_signed negative ?_
    unfold magnitudeText
    split
    · decide
    · exact isControl_of_positional (positional_spec _)

theorem printable_scalar (v : Scalar) : Printable (scalar v) := by
  cases v with
  | bool b => exact printable_switch b
  | number x => exact printable_number x
  | string s => exact printable_quoted s

/-! ### Keys -/

theorem isControl_of_isNameRest {c : Char} (h : Lua.isNameRest c = true) : isControl c = false := by
  simp only [Lua.isNameRest, Lua.isNameStart, Char.le_def, UInt32.le_iff_toNat_le,
    decide_eq_true_eq] at h
  rcases h with (h | h | rfl) | h
  · exact isControl_of_range (le_trans (by decide) h.1) (lt_of_le_of_lt h.2 (by decide))
  · exact isControl_of_range (le_trans (by decide) h.1) (lt_of_le_of_lt h.2 (by decide))
  · decide
  · exact isControl_of_range (le_trans (by decide) h.1) (lt_of_le_of_lt h.2 (by decide))

theorem printable_of_isIdentifier {name : String} (h : isIdentifier name = true) :
    Printable name := by
  unfold isIdentifier at h
  split at h
  · cases h
  · next c rest hlist =>
    simp only [Bool.and_eq_true, List.all_eq_true] at h
    obtain ⟨⟨hc, hall⟩, -⟩ := h
    have hc' : Lua.isNameRest c = true := by simp [Lua.isNameRest, hc]
    rw [Printable, hlist]
    exact List.forall_mem_cons.mpr
      ⟨isControl_of_isNameRest hc', fun d hd => isControl_of_isNameRest (hall d hd)⟩

theorem printable_key (name : String) : Printable (key name) := by
  unfold key
  split
  · next hname => exact printable_of_isIdentifier hname
  · have hopen : Printable "[" := by decide
    have hclose : Printable "]" := by decide
    exact (hopen.append (printable_quoted name)).append hclose

theorem printable_assignment (o : Override) : Printable (assignment o) :=
  ((printable_key o.name).append (by decide)).append (printable_scalar o.value)

/-! ### Lines in a text -/

/-- The text of lines, each with its end. -/
def ended (lines : List String) : List Char := lines.flatMap fun line => line.toList ++ ['\n']

theorem toList_join_ended (lines : List String) :
    (String.join (lines.map (· ++ "\n"))).toList = ended lines := by
  rw [String.toList_join, List.flatMap_map, ended]
  simp only [String.toList_append]
  rfl

theorem ended_append (lines lines' : List String) :
    ended (lines ++ lines') = ended lines ++ ended lines' := List.flatMap_append

/-- The first line of a text. -/
theorem eq_of_append_newline {x x' rest rest' : List Char} (h : '\n' ∉ x) (h' : '\n' ∉ x')
    (heq : x ++ '\n' :: rest = x' ++ '\n' :: rest') : x = x' ∧ rest = rest' := by
  have hfirst : ∀ {x rest : List Char}, '\n' ∉ x →
      (x ++ '\n' :: rest).takeWhile (· ≠ '\n') = x := fun {x rest} h => by
    rw [List.takeWhile_append_of_pos fun c hc => by simpa using fun heq : c = '\n' => h (heq ▸ hc)]
    simp
  have hx : x = x' := by rw [← hfirst h, heq, hfirst h']
  subst hx
  exact ⟨rfl, (List.cons.inj (List.append_cancel_left heq)).2⟩

/-- Texts tell the lines with which they begin. -/
theorem eq_of_ended {lines lines' : List String} (h : ∀ s ∈ lines, OneLine s)
    (h' : ∀ s ∈ lines', OneLine s) (hlength : lines.length = lines'.length)
    {rest rest' : List Char} (heq : ended lines ++ rest = ended lines' ++ rest') :
    lines = lines' := by
  induction lines generalizing lines' with
  | nil => exact (List.length_eq_zero_iff.mp hlength.symm).symm
  | cons s lines ih =>
    cases lines' with
    | nil => cases hlength
    | cons s' lines' =>
      simp only [ended, List.flatMap_cons, List.append_assoc, List.singleton_append] at heq
      obtain ⟨hs, hrest⟩ := eq_of_append_newline (h s List.mem_cons_self)
        (h' s' List.mem_cons_self) heq
      rw [String.toList_inj.mp hs, ih (fun t ht => h t (List.mem_cons_of_mem _ ht))
        (fun t ht => h' t (List.mem_cons_of_mem _ ht)) (Nat.succ.inj hlength) hrest]

/-- An element of a block, as a line. -/
def elementLine (item : String) : String := "    " ++ item ++ ","

theorem elementLine_inj {s t : String} (h : elementLine s = elementLine t) : s = t := by
  have hlist := congrArg String.toList h
  simp only [elementLine, String.toList_append] at hlist
  exact String.toList_inj.mp (List.append_cancel_left (List.append_cancel_right hlist))

theorem lines_block (name : String) {items : List String} (h : items ≠ []) :
    Rendition.lines name (.block items) =
      ["  " ++ key name ++ "=\x7b"] ++ (items.map elementLine ++ ["  \x7d,"]) := by
  cases items with
  | nil => exact absurd rfl h
  | cons s items => rfl

/-- A block tells its elements. -/
theorem eq_of_block {name : String} {items items' : List String} (h : ∀ s ∈ items, OneLine s)
    (h' : ∀ s ∈ items', OneLine s) (hlength : items.length = items'.length)
    {rest rest' : List Char}
    (heq : ended (Rendition.lines name (.block items)) ++ rest =
      ended (Rendition.lines name (.block items')) ++ rest') : items = items' := by
  have hline : ∀ {items : List String}, (∀ s ∈ items, OneLine s) →
      ∀ line ∈ items.map elementLine, OneLine line := fun {items} h line hmem => by
    obtain ⟨s, hs, rfl⟩ := List.mem_map.mp hmem
    exact ((by decide : OneLine "    ").append (h s hs)).append (by decide)
  -- both blocks have elements or neither, and then the lines can be compared one by one
  cases items with
  | nil => exact (List.length_eq_zero_iff.mp hlength.symm).symm
  | cons s items =>
    cases items' with
    | nil => cases hlength
    | cons s' items' =>
      rw [lines_block name (List.cons_ne_nil s items),
        lines_block name (List.cons_ne_nil s' items')] at heq
      simp only [ended_append _ (_ ++ _), List.append_assoc] at heq
      rw [ended_append, ended_append, List.append_assoc, List.append_assoc] at heq
      have hlines := eq_of_ended (hline h) (hline h') (by simpa using hlength)
        (List.append_cancel_left heq)
      exact List.map_injective_iff.mpr (fun _ _ => elementLine_inj) hlines

end LuaConfig.Script
