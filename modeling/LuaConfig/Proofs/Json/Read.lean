/-
Values that are read from the text of a document.

`Tells read d a` says that a reader takes the value `a` off the text of the document `d`, in every
layout and whatever stands around it.  It holds of every simple value and the document it is written
as, provided that doubles are finite and read back; arrays tell lists (`tells_list`) and objects
tell records (`tells_record`).
-/
import LuaConfig.Proofs.Json.Skip

namespace LuaConfig.Json

open Decimal

-- powers are the built-in ones
attribute [local instance (2000)] instPowNat

/-- The reader takes the value off the text of the document. -/
def Tells {α : Type} (read : Read α) (d : Json) (a : α) : Prop :=
  ∀ (layout : Layout) (depth : Nat) {blanks rest : List Char}, Blank blanks → Stops rest →
    read (blanks ++ (layout.text depth d ++ rest)) = .ok (a, rest)

/-! ### Simple values -/

theorem tells_text (s : String) : Tells readText (.string s) s := by
  intro layout depth blanks rest hblank _
  rw [Layout.text_string, toList_quoted, List.cons_append, readText,
    skipBlank_append_cons hblank (by decide), List.append_assoc]
  exact readString_quoted s rest

theorem tells_flag (b : Bool) : Tells readFlag (.bool b) b := by
  intro layout depth blanks rest hblank _
  rw [Layout.text_bool, readFlag]
  cases b with
  | true =>
    rw [if_pos rfl, List.cons_append, skipBlank_append_cons hblank (by decide)]
    rfl
  | false =>
    rw [if_neg Bool.false_ne_true, List.cons_append, skipBlank_append_cons hblank (by decide)]
    rfl

/-- A finite double that is read back. -/
structure Readable (x : Float) : Prop where
  finite : (Binary64.ofFloat x).isFinite
  reads_back : ReadsBack x

theorem tells_number {x : Float} (h : Readable x) : Tells readFloat (.float x) x := by
  intro layout depth blanks rest hblank hrest
  obtain ⟨n, hn, hread⟩ := h.reads_back.readNumber h.finite
  rw [Layout.text_float, readFloat, readAnyNumber_text hblank (numberText_floatText h.finite),
    hread rest hrest]
  exact congrArg (fun y => Except.ok (y, rest)) hn

theorem tells_whole (n : Int64) : Tells readWhole64 (.integer n.toInt) n := by
  intro layout depth blanks rest hblank hrest
  have hlow := n.le_toInt
  have hhigh := n.toInt_lt
  have hread := readNumber_repr (n := n.toInt) (by omega) (by omega) rest hrest
  rw [Layout.text_integer, readWhole64, readInteger,
    readAnyNumber_text hblank (numberText_repr n.toInt), hread]
  have hrange : -(2 ^ (63 : Nat)) ≤ n.toInt ∧ n.toInt ≤ 2 ^ (63 : Nat) - 1 := by omega
  simp only [Except.map, ok_bind, if_pos hrange, Int64.ofInt_toInt]

/-- A value that is neither array nor object is read as a leaf. -/
theorem readAny_leaf (room : Nat) {blanks : List Char} (hblank : Blank blanks) {c : Char}
    (hc : ¬ isBlank c) (harray : c ≠ '[') (hobject : c ≠ '\x7b') (text : List Char) :
    readAny room (blanks ++ c :: text) = readAny.readAnyLeaf (c :: text) := by
  have hskip := skipBlank_append_cons hblank hc text
  cases room with
  | zero =>
    rw [readAny]
    unfold readAny.readAnyLeaf
    rw [hskip, skipBlank_cons hc]
  | succ room =>
    rw [readAny, hskip]
    simp [harray, hobject]

theorem tells_scalar {v : Scalar} (h : ∀ x, v = .number x → Readable x) (room : Nat) :
    Tells (readScalar room) (writeScalar v) v := by
  intro layout depth blanks rest hblank hrest
  cases v with
  | bool b =>
    rw [writeScalar, Layout.text_bool, readScalar]
    cases b with
    | true =>
      rw [if_pos rfl, List.cons_append, readAny_leaf room hblank] <;> try decide
      rfl
    | false =>
      rw [if_neg Bool.false_ne_true, List.cons_append, readAny_leaf room hblank] <;> try decide
      rfl
  | number x =>
    have hx := h x rfl
    obtain ⟨n, hn, hread⟩ := hx.reads_back.readNumber hx.finite
    replace hread := hread rest hrest
    have htext := numberText_floatText hx.finite
    rw [writeScalar, Layout.text_float, readScalar]
    -- the first character tells the reader that there is a number
    obtain ⟨c, cs, heq, hc⟩ := htext.exists_eq_cons
    rw [heq, List.cons_append] at hread ⊢
    rw [readAny_leaf room hblank (not_isBlank_of_number hc) (ne_of_number hc (by decide))
      (ne_of_number hc (by decide)), readAny.readAnyLeaf, skipBlank_cons (not_isBlank_of_number hc)]
    have hn' : c ≠ 'n' := ne_of_number hc (by decide)
    have ht : c ≠ 't' := ne_of_number hc (by decide)
    have hf : c ≠ 'f' := ne_of_number hc (by decide)
    have hq : c ≠ '"' := ne_of_number hc (by decide)
    simp [hn', ht, hf, hq, startsNumber_of hc, hread, Except.map, ok_bind, hn]
  | string s =>
    rw [writeScalar, Layout.text_string, toList_quoted, List.cons_append, List.append_assoc, readScalar,
      readAny_leaf room hblank (by decide) (by decide) (by decide)]
    have hread := readString_quoted s rest
    simp [readAny.readAnyLeaf, skipBlank, isBlank, hread, ok_bind]

/-- The text of a scalar does not begin as `null` does. -/
theorem exists_scalar_eq_cons (layout : Layout) (depth : Nat) {v : Scalar}
    (h : ∀ x, v = .number x → Readable x) :
    ∃ c cs, layout.text depth (writeScalar v) = c :: cs ∧ ¬ isBlank c ∧ c ≠ 'n' := by
  cases v with
  | bool b =>
    rw [writeScalar, Layout.text_bool]
    cases b with
    | true => exact ⟨'t', _, rfl, by decide, by decide⟩
    | false => exact ⟨'f', _, rfl, by decide, by decide⟩
  | number x =>
    obtain ⟨c, cs, heq, hc⟩ := (numberText_floatText (h x rfl).finite).exists_eq_cons
    rw [writeScalar, Layout.text_float]
    exact ⟨c, cs, heq, not_isBlank_of_number hc, ne_of_number hc (by decide)⟩
  | string s =>
    rw [writeScalar, Layout.text_string, toList_quoted]
    exact ⟨'"', _, rfl, by decide, by decide⟩

theorem tells_choice {v : Option Scalar} (h : ∀ x, v = some (.number x) → Readable x)
    (room : Nat) : Tells (Codec.choice.read room) (Codec.choice.write v) v := by
  intro layout depth blanks rest hblank hrest
  show readOptional (readScalar room) _ = _
  cases v with
  | none =>
    show readOptional _ (blanks ++ (layout.text depth .null ++ rest)) = _
    rw [Layout.text_null, List.cons_append, readOptional, skipBlank_append_cons hblank (by decide)]
    rfl
  | some v =>
    have hv : ∀ x, v = .number x → Readable x := fun x hx => h x (congrArg some hx)
    obtain ⟨c, cs, heq, hc, hne⟩ := exists_scalar_eq_cons layout depth hv
    have hread := tells_scalar hv room layout depth blank_nil hrest
    show readOptional _ (blanks ++ (layout.text depth (writeScalar v) ++ rest)) = _
    rw [heq, List.nil_append, List.cons_append] at hread
    rw [heq, List.cons_append, readOptional, skipBlank_append_cons hblank hc]
    simp [hne, hread, ok_bind]

/-! ### Lists -/

theorem length_le_items (layout : Layout) (first : Bool) (depth : Nat) (items : List Json) :
    items.length ≤ (layout.items first depth items).length := by
  induction items generalizing first with
  | nil => simp
  | cons item items ih =>
    have hpos := length_text_pos layout depth item
    have := ih false
    simp only [Layout.items, List.length_append, List.length_cons]
    omega

/-- The elements of an array are read one after the other. -/
theorem readElements_items {α : Type} {element : Read α} (layout : Layout) {blanks : List Char}
    (hblank : Blank blanks) (rest : List Char) (depth : Nat) {items : List Json} {values : List α}
    (h : List.Forall₂ (Tells element) items values) (first : Bool) (done : List α) (fuel : Nat)
    (hfuel : items.length < fuel) :
    readElements element fuel first done
        (layout.items first depth items ++ (blanks ++ ']' :: rest)) =
      .ok (done.reverse ++ values, rest) := by
  induction h generalizing first done fuel with
  | nil =>
    obtain ⟨fuel, rfl⟩ := Nat.exists_eq_succ_of_ne_zero (Nat.ne_of_gt hfuel)
    rw [Layout.items, List.nil_append, readElements, nextElement_end first hblank, List.append_nil]
  | @cons item a items values hitem hitems ih =>
    obtain ⟨fuel, rfl⟩ := Nat.exists_eq_succ_of_ne_zero (Nat.ne_of_gt (Nat.zero_lt_of_lt hfuel))
    have hread := hitem layout depth blank_nil (stops_items layout depth items hblank rest)
    have hrest := ih false (a :: done) fuel (Nat.lt_of_succ_lt_succ hfuel)
    rw [List.nil_append] at hread
    rw [items_cons, readElements, nextElement_text]
    simp only [hread, hrest, List.reverse_cons, List.append_assoc, List.singleton_append]

/-- An array tells a list if its elements tell those of the list. -/
theorem tells_list {α : Type} {element : Codec α} {room : Nat} {items : List Json}
    {values : List α} (h : List.Forall₂ (Tells (element.read room)) items values) :
    Tells ((Codec.list element).read (room + 1)) (.array items) values := by
  intro layout depth blanks rest hblank hrest
  have hlength := length_le_items layout true (depth + 1) items
  have hread := readElements_items layout (layout.blank_closing items.isEmpty depth) rest (depth + 1) h
    true [] ((layout.items true (depth + 1) items ++
      (layout.closing items.isEmpty depth ++ ']' :: rest)).length + 1)
    (by simp only [List.length_append]; omega)
  rw [Layout.text, List.cons_append]
  simp only [Codec.list, skipBlank_append_cons hblank (show ¬ isBlank '[' by decide), enter]
  simpa using hread

/-! ### Whole texts -/

/-- A text that holds a document between blanks is read as what the document tells. -/
theorem parse_of_tells {α : Type} {codec : Codec α} {d : Json} {a : α}
    (h : Tells (codec.read maxDepth) d a) (layout : Layout) {text : String} {blanks : List Char}
    (hblank : Blank blanks) (htext : text.toList = layout.text 0 d ++ blanks) :
    codec.parse text = .ok a := by
  have hread := h layout 0 blank_nil (stops_of_blank hblank)
  rw [List.nil_append] at hread
  rw [Codec.parse, htext, hread]
  simp [skipBlank_of_blank hblank]

theorem parse_compact {α : Type} {codec : Codec α} {d : Json} {a : α}
    (h : Tells (codec.read maxDepth) d a) : codec.parse d.compact = .ok a :=
  parse_of_tells h .compact blank_nil (by rw [toList_compact, List.append_nil])

theorem parse_pretty {α : Type} {codec : Codec α} {d : Json} {a : α}
    (h : Tells (codec.read maxDepth) d a) : codec.parse d.pretty = .ok a :=
  parse_of_tells h .pretty blank_nil (by rw [toList_pretty, List.append_nil])

end LuaConfig.Json
