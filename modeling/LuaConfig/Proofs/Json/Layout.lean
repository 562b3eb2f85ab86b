/-
Documents spread out with blanks.

The compact and the pretty text of a document differ in no more than the blanks between its parts.
A `Layout` says which blanks these are, and everything about reading is proved for the text in any
layout.  The main statements are `toList_compact` and `toList_pretty`: both texts are the text in a
layout.
-/
import LuaConfig.Json.Document
import LuaConfig.Json.Reader
import Mathlib

namespace LuaConfig.Json

/-! ### Blanks -/

/-- White space only. -/
def Blank (text : List Char) : Prop := ∀ c ∈ text, isBlank c

theorem blank_nil : Blank [] := by simp [Blank]

theorem skipBlank_append {blanks : List Char} (h : Blank blanks) (text : List Char) :
    skipBlank (blanks ++ text) = skipBlank text :=
  List.dropWhile_append_of_pos h

theorem skipBlank_of_blank {blanks : List Char} (h : Blank blanks) : skipBlank blanks = [] := by
  simpa [skipBlank] using skipBlank_append h []

theorem skipBlank_cons {c : Char} (h : ¬ isBlank c) (text : List Char) :
    skipBlank (c :: text) = c :: text :=
  List.dropWhile_cons_of_neg h

theorem skipBlank_append_cons {blanks : List Char} (h : Blank blanks) {c : Char}
    (hc : ¬ isBlank c) (text : List Char) : skipBlank (blanks ++ c :: text) = c :: text := by
  rw [skipBlank_append h, skipBlank_cons hc]

/-- What may follow a value: a blank, a comma, a closing bracket, or nothing. -/
def Stops (text : List Char) : Prop :=
  ∀ c ∈ text.head?, isBlank c ∨ c = ',' ∨ c = ']' ∨ c = '\x7d'

theorem stops_nil : Stops [] := by simp [Stops]

theorem stops_of_blank {blanks : List Char} (h : Blank blanks) : Stops blanks :=
  fun c hc => .inl (h c (List.mem_of_mem_head? hc))

/-- A text stops what is in front of it if what follows its blanks does. -/
theorem Stops.after {blanks text : List Char} (h : Blank blanks) (htext : Stops text) :
    Stops (blanks ++ text) := by
  cases blanks with
  | nil => exact htext
  | cons b blanks =>
    rintro c ⟨⟩
    exact .inl (h b List.mem_cons_self)

theorem stops_comma (text : List Char) : Stops (',' :: text) := by
  rintro c ⟨⟩
  exact .inr (.inl rfl)

theorem stops_bracket (text : List Char) : Stops (']' :: text) := by
  rintro c ⟨⟩
  exact .inr (.inr (.inl rfl))

theorem stops_brace (text : List Char) : Stops ('\x7d' :: text) := by
  rintro c ⟨⟩
  exact .inr (.inr (.inr rfl))

/-! ### Layouts -/

/-- The blanks with which a document is spread out. -/
structure Layout where
  /-- In front of an element or a member that lies so deep, and of a bracket that closes. -/
  gap : Nat → List Char
  /-- After a colon. -/
  space : List Char
  blank_gap : ∀ depth, Blank (gap depth)
  blank_space : Blank space

namespace Layout

/-- No blanks. -/
def compact : Layout := ⟨fun _ => [], [], fun _ => blank_nil, blank_nil⟩

/-- A line per element. -/
def pretty : Layout where
  gap depth := (newline depth).toList
  space := [' ']
  blank_gap depth := by
    intro c hc
    simp only [newline, String.toList_append, String.toList_ofList, List.mem_append,
      List.mem_replicate] at hc
    rcases hc with hc | ⟨-, rfl⟩
    · obtain rfl : c = '\n' := by simpa using hc
      rfl
    · rfl
  blank_space := by simp [Blank, isBlank]

/-- What stands between elements: a comma, but nothing before the first. -/
def separator (first : Bool) : List Char := if first then [] else [',']

/-- In front of the bracket that closes an array or an object: an empty one is not spread out. -/
def closing (layout : Layout) (empty : Bool) (depth : Nat) : List Char :=
  if empty then [] else layout.gap depth

mutual

/-- The text of a document. -/
def text (layout : Layout) (depth : Nat) : Json → List Char
  | array items =>
    '[' :: (layout.items true (depth + 1) items ++ layout.closing items.isEmpty depth ++ [']'])
  | object members =>
    '\x7b' :: (layout.members true (depth + 1) members ++
      layout.closing members.isEmpty depth ++ ['\x7d'])
  | leaf => (leafText leaf).toList

def items (layout : Layout) (first : Bool) (depth : Nat) : List Json → List Char
  | [] => []
  | item :: rest =>
    separator first ++ layout.gap depth ++ layout.text depth item ++ layout.items false depth rest

def members (layout : Layout) (first : Bool) (depth : Nat) : List (String × Json) → List Char
  | [] => []
  | (name, value) :: rest =>
    separator first ++ layout.gap depth ++ (quoted name).toList ++ [':'] ++ layout.space ++
      layout.text depth value ++ layout.members false depth rest

end

theorem blank_closing (layout : Layout) (empty : Bool) (depth : Nat) :
    Blank (layout.closing empty depth) := by
  unfold closing
  split
  · exact blank_nil
  · exact layout.blank_gap depth

end Layout

namespace Layout

section

variable (layout : Layout) (depth : Nat)

@[simp] theorem text_null : layout.text depth .null = ['n', 'u', 'l', 'l'] := by
  simp [text, leafText]

@[simp] theorem text_bool (b : Bool) :
    layout.text depth (.bool b) = if b then ['t', 'r', 'u', 'e'] else ['f', 'a', 'l', 's', 'e'] := by
  cases b <;> simp [text, leafText]

@[simp] theorem text_integer (n : Int) : layout.text depth (.integer n) = (Int.repr n).toList := by
  simp [text, leafText]

@[simp] theorem text_float (x : Float) : layout.text depth (.float x) = (floatText x).toList := by
  simp [text, leafText]

@[simp] theorem text_string (s : String) : layout.text depth (.string s) = (quoted s).toList := by
  simp [text, leafText]

end

@[simp] theorem gap_compact (depth : Nat) : compact.gap depth = [] := rfl

@[simp] theorem space_compact : compact.space = [] := rfl

@[simp] theorem gap_pretty (depth : Nat) : pretty.gap depth = (newline depth).toList := rfl

@[simp] theorem space_pretty : pretty.space = [' '] := rfl

@[simp] theorem closing_compact (empty : Bool) (depth : Nat) : compact.closing empty depth = [] :=
  ite_self []

end Layout

/-! ### The compact and the pretty text -/

/-- What the writers put between elements. -/
def separatorText (first : Bool) : String := if first then "" else ","

@[simp] theorem toList_separatorText (first : Bool) :
    (separatorText first).toList = Layout.separator first := by
  cases first <;> rfl

mutual

theorem toList_compactOnto (out : String) (depth : Nat) :
    ∀ d : Json, (compactOnto out d).toList = out.toList ++ Layout.compact.text depth d
  | .array items => by
    have h := toList_compactItems (out ++ "[") true (depth + 1) items
    show (compactItems (out ++ "[") (separatorText true) items ++ "]").toList = _
    simp [h, Layout.text]
  | .object members => by
    have h := toList_compactMembers (out ++ "\x7b") true (depth + 1) members
    show (compactMembers (out ++ "\x7b") (separatorText true) members ++ "\x7d").toList = _
    simp [h, Layout.text]
  | .null => by simp [compactOnto, leafText]
  | .bool b => by cases b <;> simp [compactOnto, leafText]
  | .integer _ => by simp [compactOnto, leafText]
  | .float _ => by simp [compactOnto, leafText]
  | .string _ => by simp [compactOnto, leafText]

theorem toList_compactItems (out : String) (first : Bool) (depth : Nat) :
    ∀ items : List Json, (compactItems out (separatorText first) items).toList =
      out.toList ++ Layout.compact.items first depth items
  | [] => by simp [compactItems, Layout.items]
  | item :: rest => by
    have hitem := toList_compactOnto (out ++ separatorText first) depth item
    have hrest := toList_compactItems (compactOnto (out ++ separatorText first) item) false depth
      rest
    show (compactItems _ (separatorText false) rest).toList = _
    simp [hrest, hitem, Layout.items]

theorem toList_compactMembers (out : String) (first : Bool) (depth : Nat) :
    ∀ members : List (String × Json), (compactMembers out (separatorText first) members).toList =
      out.toList ++ Layout.compact.members first depth members
  | [] => by simp [compactMembers, Layout.members]
  | (name, value) :: rest => by
    have hvalue := toList_compactOnto (out ++ separatorText first ++ quoted name ++ ":") depth value
    have hrest := toList_compactMembers
      (compactOnto (out ++ separatorText first ++ quoted name ++ ":") value) false depth rest
    show (compactMembers _ (separatorText false) rest).toList = _
    simp [hrest, hvalue, Layout.members]

end

mutual

theorem toList_prettyOnto (out : String) (depth : Nat) :
    ∀ d : Json, (prettyOnto out depth d).toList = out.toList ++ Layout.pretty.text depth d
  | .array [] => by simp [prettyOnto, Layout.text, Layout.items, Layout.closing]
  | .array (item :: rest) => by
    have h := toList_prettyItems (out ++ "[") true (depth + 1) (item :: rest)
    show (prettyItems (out ++ "[") (separatorText true) (depth + 1) (item :: rest) ++
      newline depth ++ "]").toList = _
    simp [h, Layout.text, Layout.closing]
  | .object [] => by simp [prettyOnto, Layout.text, Layout.members, Layout.closing]
  | .object (member :: rest) => by
    have h := toList_prettyMembers (out ++ "\x7b") true (depth + 1) (member :: rest)
    show (prettyMembers (out ++ "\x7b") (separatorText true) (depth + 1) (member :: rest) ++
      newline depth ++ "\x7d").toList = _
    simp [h, Layout.text, Layout.closing]
  | .null => by simp [prettyOnto, leafText]
  | .bool b => by cases b <;> simp [prettyOnto, leafText]
  | .integer _ => by simp [prettyOnto, leafText]
  | .float _ => by simp [prettyOnto, leafText]
  | .string _ => by simp [prettyOnto, leafText]

theorem toList_prettyItems (out : String) (first : Bool) (depth : Nat) :
    ∀ items : List Json, (prettyItems out (separatorText first) depth items).toList =
      out.toList ++ Layout.pretty.items first depth items
  | [] => by simp [prettyItems, Layout.items]
  | item :: rest => by
    have hitem := toList_prettyOnto (out ++ separatorText first ++ newline depth) depth item
    have hrest := toList_prettyItems
      (prettyOnto (out ++ separatorText first ++ newline depth) depth item) false depth rest
    show (prettyItems _ (separatorText false) depth rest).toList = _
    simp [hrest, hitem, Layout.items]

theorem toList_prettyMembers (out : String) (first : Bool) (depth : Nat) :
    ∀ members : List (String × Json),
      (prettyMembers out (separatorText first) depth members).toList =
        out.toList ++ Layout.pretty.members first depth members
  | [] => by simp [prettyMembers, Layout.members]
  | (name, value) :: rest => by
    have hvalue := toList_prettyOnto
      (out ++ separatorText first ++ newline depth ++ quoted name ++ ": ") depth value
    have hrest := toList_prettyMembers
      (prettyOnto (out ++ separatorText first ++ newline depth ++ quoted name ++ ": ") depth value)
      false depth rest
    show (prettyMembers _ (separatorText false) depth rest).toList = _
    simp [hrest, hvalue, Layout.members]

end

/-- The compact text of a document is its text without blanks. -/
theorem toList_compact (d : Json) : d.compact.toList = Layout.compact.text 0 d := by
  simpa [compact] using toList_compactOnto "" 0 d

/-- The pretty text of a document is its text with a line per element. -/
theorem toList_pretty (d : Json) : d.pretty.toList = Layout.pretty.text 0 d := by
  simpa [pretty] using toList_prettyOnto "" 0 d

end LuaConfig.Json
