/-
The layout of scripts.

A script consists of lines without control characters: one for a simple field or an empty block, and
one for each element of a block between the lines that open and close it (`isBlock_linesOf`).  Hence
a change of one value is a change of one line, for the sort of the overrides looks at their names
only (`oneApart_sortedOverrides`).

Main statement:
* `script_hasLines` — the lines of a script, and of two scripts whose levels differ in one value.
-/
import LuaConfig.Proofs.Script.Fixpoint
import LuaConfig.Proofs.Script.Lines

namespace LuaConfig

/-! ### Lists that differ in one place -/

section OneApart

variable {α β : Type}

/-- Lists that are the same, or differ in one place. -/
inductive OneApart (r : α → α → Prop) : List α → List α → Prop where
  | same (xs : List α) : OneApart r xs xs
  | one (before after : List α) {x y : α} (h : r x y) :
    OneApart r (before ++ x :: after) (before ++ y :: after)

namespace OneApart

variable {r : α → α → Prop} {xs ys : List α}

theorem exists_eq (h : OneApart r xs ys) (hne : xs ≠ []) :
    ∃ before x y after, xs = before ++ x :: after ∧ ys = before ++ y :: after := by
  cases h with
  | same =>
    obtain ⟨x, rest, rfl⟩ := List.exists_cons_of_ne_nil hne
    exact ⟨[], x, x, rest, rfl, rfl⟩
  | one before after => exact ⟨before, _, _, after, rfl, rfl⟩

theorem map {s : β → β → Prop} {f : α → β} (hf : ∀ x y, r x y → s (f x) (f y))
    (h : OneApart r xs ys) : OneApart s (xs.map f) (ys.map f) := by
  cases h with
  | same => exact .same _
  | one before after hr =>
    rw [List.map_append, List.map_append]
    exact .one _ _ (hf _ _ hr)

theorem append_left (zs : List α) (h : OneApart r xs ys) : OneApart r (zs ++ xs) (zs ++ ys) := by
  cases h with
  | same => exact .same _
  | one before after hr =>
    rw [← List.append_assoc, ← List.append_assoc]
    exact .one _ _ hr

theorem append_right (zs : List α) (h : OneApart r xs ys) : OneApart r (xs ++ zs) (ys ++ zs) := by
  cases h with
  | same => exact .same _
  | one before after hr =>
    rw [List.append_assoc, List.append_assoc]
    exact .one _ _ hr

/-- Pairs of which one has different components, in any order. -/
theorem of_perm {pairs : List (α × α)} {before after : List α} {x y : α} (h : r x y)
    (hperm : pairs.Perm (before.map (fun z => (z, z)) ++ (x, y) :: after.map fun z => (z, z))) :
    OneApart r (pairs.map Prod.fst) (pairs.map Prod.snd) := by
  obtain ⟨pre, post, rfl⟩ := List.append_of_mem
    (hperm.mem_iff.mpr (List.mem_append_right _ List.mem_cons_self) : (x, y) ∈ pairs)
  -- the pairs around it are the other ones, whose components are the same
  have hrest := ((List.perm_middle.symm.trans hperm).trans List.perm_middle).cons_inv
  rw [← List.map_append] at hrest
  have hsame : ∀ p ∈ pre ++ post, p.1 = p.2 := by
    intro p hp
    obtain ⟨z, -, rfl⟩ := List.mem_map.mp (hrest.mem_iff.mp hp)
    rfl
  rw [List.forall_mem_append] at hsame
  rw [List.map_append, List.map_cons, List.map_append, List.map_cons,
    List.map_congr_left hsame.1, List.map_congr_left hsame.2]
  exact .one _ _ h

/-- Lists that are put together, of which those of one key differ in one place. -/
theorem flatMap {κ : Type} {f g : β → List α} {key : β → κ} {k : κ} {bs : List β}
    (hnodup : (bs.map key).Nodup) (hsame : ∀ b ∈ bs, key b ≠ k → f b = g b)
    (hone : ∀ b ∈ bs, key b = k → OneApart r (f b) (g b)) :
    OneApart r (bs.flatMap f) (bs.flatMap g) := by
  induction bs with
  | nil => exact .same _
  | cons b bs ih =>
    rw [List.forall_mem_cons] at hsame hone
    rw [List.map_cons, List.nodup_cons] at hnodup
    rw [List.flatMap_cons, List.flatMap_cons]
    by_cases hb : key b = k
    · -- no other list has this key, so that the rest is the same
      have hrest : bs.flatMap f = bs.flatMap g := List.flatMap_congr fun c hc =>
        hsame.2 c hc fun hk => hnodup.1 (hb.trans hk.symm ▸ List.mem_map_of_mem hc)
      rw [hrest]
      exact (hone.1 hb).append_right _
    · rw [hsame.1 hb]
      exact (ih hnodup.2 hsame.2 hone.2).append_left _

end OneApart

end OneApart

/-- A value of which one part may be another one: a simple value, an element of a list, or the value
of one of the overrides. -/
def Kind.Changed : (kind : Kind) → kind.Value → kind.Value → Prop
  | .text, _, _ => True
  | .flag, _, _ => True
  | .number, _, _ => True
  | .whole, _, _ => True
  | .scalar, _, _ => True
  | .choice, _, _ => True
  | .limit, _, _ => True
  | .texts, v, w => OneApart (fun _ _ => True) v w
  | .numbers, v, w => OneApart (fun _ _ => True) v w
  | .overrides, v, w => OneApart (fun o o' => o.name = o'.name) v w
  | .items, v, w => OneApart (fun _ _ => True) v w
  | .options, v, w => OneApart (fun _ _ => True) v w

/-- The number of elements, for the kinds whose values have elements. -/
def Kind.size? : (kind : Kind) → kind.Value → Option Nat
  | .texts, v => some v.length
  | .numbers, v => some v.length
  | .overrides, v => some v.length
  | .items, v => some v.length
  | .options, v => some v.length
  | _, _ => none

namespace Script

/-! ### The lines of a field -/

/-- The lines of a field by the number of its elements, if its value is one that has elements. -/
inductive IsBlock (name : String) : Option Nat → List String → Prop where
  | simple {text : String} (h : Printable text) :
    IsBlock name none ["  " ++ key name ++ "=" ++ text ++ ","]
  | empty : IsBlock name (some 0) ["  " ++ key name ++ "=\x7b\x7d,"]
  | elements {items : List String} (hne : items ≠ []) (h : ∀ item ∈ items, Printable item) :
    IsBlock name (some items.length)
      (["  " ++ key name ++ "=\x7b"] ++ (items.map elementLine ++ ["  \x7d,"]))

theorem IsBlock.printable {name : String} {size : Option Nat} {lines : List String}
    (h : IsBlock name size lines) : ∀ line ∈ lines, Printable line := by
  have hkey : Printable ("  " ++ key name) := .append (by decide) (printable_key name)
  cases h with
  | simple h =>
    rw [List.forall_mem_singleton]
    exact ((hkey.append (by decide)).append h).append (by decide)
  | empty =>
    rw [List.forall_mem_singleton]
    exact hkey.append (by decide)
  | elements hne h =>
    intro line hline
    rw [List.mem_append, List.mem_append, List.mem_singleton, List.mem_singleton] at hline
    rcases hline with rfl | hline | rfl
    · exact hkey.append (by decide)
    · obtain ⟨item, hitem, rfl⟩ := List.mem_map.mp hline
      exact ((by decide : Printable "    ").append (h item hitem)).append (by decide)
    · decide

theorem isBlock_block (name : String) {α : Type} {text : α → String}
    (htext : ∀ x, Printable (text x)) (items : List α) :
    IsBlock name (some items.length) (Rendition.lines name (.block (items.map text))) := by
  rw [← List.length_map text]
  by_cases h : items.map text = []
  · rw [h]
    exact .empty
  · rw [lines_block name h]
    refine .elements h fun item hitem => ?_
    obtain ⟨x, -, rfl⟩ := List.mem_map.mp hitem
    exact htext x

theorem isBlock_linesOf (name : String) {kind : Kind}
    (h : kind ∉ [Kind.choice, .limit, .items, .options]) (v : kind.Value) :
    IsBlock name (kind.size? v) (linesOf name kind v) := by
  cases kind with
  | text => exact .simple (printable_quoted v)
  | flag => exact .simple (printable_switch v)
  | number => exact .simple (printable_number v)
  | whole => exact .simple (printable_number _)
  | scalar => exact .simple (printable_scalar v)
  | texts => exact isBlock_block name printable_quoted v
  | numbers => exact isBlock_block name printable_number v
  | overrides =>
    have hlength : (sortedOverrides v).length = v.length := (sortedOverrides_perm v).length_eq
    show IsBlock name (some v.length) _
    rw [← hlength]
    exact isBlock_block name printable_assignment (sortedOverrides v)
  | choice | limit | items | options => exact absurd (by decide) h

/-! ### Two values of a field -/

/-- The sort of overrides does not look at their values. -/
theorem oneApart_sortedOverrides {os os' : List Override}
    (h : OneApart (fun o o' => o.name = o'.name) os os') :
    OneApart (fun _ _ => True) (sortedOverrides os) (sortedOverrides os') := by
  cases h with
  | same => exact .same _
  | @one before after o o' hname =>
    -- both are sorted at once, as pairs
    let pairs := before.map (fun x => (x, x)) ++ (o, o') :: after.map fun x => (x, x)
    have hnames : ∀ p ∈ pairs, p.2.name = p.1.name := by
      simp only [pairs, List.forall_mem_append, List.forall_mem_cons, List.forall_mem_map]
      simp [hname]
    have hfst : pairs.map Prod.fst = before ++ o :: after := by
      simp [pairs, Function.comp_def]
    have hsnd : pairs.map Prod.snd = before ++ o' :: after := by
      simp [pairs, Function.comp_def]
    let sorted := pairs.mergeSort fun p q => nameLe p.1 q.1
    have hsorted : sorted.map Prod.fst = sortedOverrides (before ++ o :: after) := by
      rw [← hfst]
      exact List.map_mergeSort fun p _ q _ => rfl
    have hsorted' : sorted.map Prod.snd = sortedOverrides (before ++ o' :: after) := by
      rw [← hsnd]
      refine List.map_mergeSort fun p hp q hq => ?_
      rw [nameLe, hnames p hp, hnames q hq]
    rw [← hsorted, ← hsorted']
    exact .of_perm trivial (List.mergeSort_perm pairs _)

theorem oneApart_lines_block (name : String) {items items' : List String}
    (h : OneApart (fun _ _ => True) items items') :
    OneApart (fun _ _ => True) (Rendition.lines name (.block items))
      (Rendition.lines name (.block items')) := by
  cases h with
  | same => exact .same _
  | one before after =>
    rw [lines_block name (by simp), lines_block name (by simp)]
    refine .append_left _ (.append_right _ (.map (fun _ _ => id) (.one before after trivial)))

theorem oneApart_linesOf (name : String) (kind : Kind) {v w : kind.Value} (h : kind.Changed v w) :
    OneApart (fun _ _ => True) (linesOf name kind v) (linesOf name kind w) := by
  cases kind with
  | text | flag | number | whole | scalar => exact .one [] [] trivial
  | texts => exact oneApart_lines_block name (h.map fun _ _ => id)
  | numbers => exact oneApart_lines_block name (h.map fun _ _ => id)
  | overrides =>
    exact oneApart_lines_block name ((oneApart_sortedOverrides h).map fun _ _ => id)
  | choice | limit | items | options => exact .same []

/-! ### The lines of a script -/

/-- The lines of a text.  None of them has a control character in it, so that they can be told from
the text. -/
structure HasLines (text : String) (lines : List String) : Prop where
  printable : ∀ line ∈ lines, Printable line
  toList_eq : text.toList = ended lines

/-- The only control character of a text that has lines is the one that ends them. -/
theorem HasLines.eq_newline {text : String} {lines : List String} (h : HasLines text lines)
    {c : Char} (hc : c ∈ text.toList) (hcontrol : isControl c = true) : c = '\n' := by
  rw [h.toList_eq, ended, List.mem_flatMap] at hc
  obtain ⟨line, hline, hmem⟩ := hc
  rcases List.mem_append.mp hmem with hmem | hmem
  · rw [h.printable line hline c hmem] at hcontrol
    cases hcontrol
  · exact List.mem_singleton.mp hmem

end Script

namespace Level

open Script

/-- Levels that differ in one field only, and there in one part of its value at most. -/
def Changed (level level' : Level) : Prop :=
  ∃ f ∈ fields, f.kind.Changed (f.get level) (f.get level') ∧
    ∀ g ∈ fields, g.key ≠ f.key → g.get level = g.get level'

theorem isBlock_fieldLines {f : Field Level} (hf : f ∈ fields) (level : Level) :
    IsBlock f.key (f.kind.size? (f.get level)) (fieldLines level f) :=
  isBlock_linesOf f.key (kind_of_mem hf) (f.get level)

theorem hasLines_script (level : Level) (dialect : Dialect) :
    HasLines (level.script dialect) (level.scriptLines dialect) where
  toList_eq := toList_join_ended _
  printable line hline := by
    rw [scriptLines, List.mem_append, List.mem_cons, List.mem_flatMap, List.mem_singleton] at hline
    rcases hline with (rfl | ⟨f, hf, hline⟩) | rfl
    · decide
    · exact (isBlock_fieldLines (mem_fields_of_dialect hf) level).printable line hline
    · decide

theorem oneApart_scriptLines {level level' : Level} (h : level.Changed level')
    (dialect : Dialect) :
    OneApart (fun _ _ => True) (level.scriptLines dialect) (level'.scriptLines dialect) := by
  obtain ⟨f, hf, hchanged, hothers⟩ := h
  refine .append_right _ (.append_left ["return \x7b"] ?_)
  refine .flatMap (nodup_keys dialect) (k := f.key) (fun g hg hne => ?_) fun g hg hkey => ?_
  · rw [fieldLines, fieldLines, hothers g (mem_fields_of_dialect hg) hne]
  · obtain rfl : g = f := List.inj_on_of_nodup_map complete_fields.nodup_keys
      (mem_fields_of_dialect hg) hf hkey
    exact oneApart_linesOf g.key g.kind hchanged

/-- A script has no control character but the ends of its lines.  These are an opening line, the
block of each field of the dialect in turn, and a closing line.  The scripts of levels that differ
in one scalar field, one element of a list or the value of one override have the same lines, except
one at most. -/
theorem script_hasLines (level : Level) (dialect : Dialect) :
    (∀ c ∈ (level.script dialect).toList, isControl c = true → c = '\n') ∧
    (∃ blocks,
      List.Forall₂ (fun f lines => IsBlock f.key (f.kind.size? (f.get level)) lines)
        dialect.fields blocks ∧
      HasLines (level.script dialect) ("return \x7b" :: blocks.flatten ++ ["\x7d"])) ∧
    ∀ level', level.Changed level' → ∃ before line line' after,
      HasLines (level.script dialect) (before ++ line :: after) ∧
      HasLines (level'.script dialect) (before ++ line' :: after) := by
  have hlines := hasLines_script level dialect
  refine ⟨fun c => hlines.eq_newline, ⟨dialect.fields.map (fieldLines level), ?_, ?_⟩, ?_⟩
  · rw [List.forall₂_map_right_iff, List.forall₂_same]
    exact fun f hf => isBlock_fieldLines (mem_fields_of_dialect hf) level
  · rw [← List.flatMap_def]
    exact hlines
  · intro level' hchanged
    obtain ⟨before, line, line', after, heq, heq'⟩ :=
      (oneApart_scriptLines hchanged dialect).exists_eq (by simp [scriptLines])
    exact ⟨before, line, line', after, heq ▸ hlines, heq' ▸ hasLines_script level' dialect⟩

/-- The second value of a name that repeats is replaced by a text with the end of a line in it. -/
theorem script_hasLines_repeated :
    ∃ level, level.overrides = [⟨"day", .string "longday"⟩, ⟨"two words", .bool false⟩,
        ⟨"day", .string "only\nnight"⟩] ∧
      unsettled.Changed level ∧ ∃ before line line' after,
        HasLines (unsettled.script .cave) (before ++ line :: after) ∧
        HasLines (level.script .cave) (before ++ line' :: after) := by
  let level := unsettled.withOverrides
    [⟨"day", .string "longday"⟩, ⟨"two words", .bool false⟩, ⟨"day", .string "only\nnight"⟩]
  have hchanged : unsettled.Changed level := by
    refine ⟨overridesField, by simp [fields], ?_, fun g hg hne => ?_⟩
    · exact .one (unsettled.overrides.take 2) [] rfl
    · rcases kind_or_overrides hg with rfl | ⟨-, hget⟩
      · exact absurd rfl hne
      · exact (hget unsettled _).symm
  exact ⟨level, rfl, hchanged, (script_hasLines unsettled .cave).2.2 level hchanged⟩

end Level

end LuaConfig
