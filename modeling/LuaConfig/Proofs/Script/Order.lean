/-
The order in which a table gives its overrides.

Tables give their entries in no particular order, and several keys may have one name: an integer and
its numeral, or strings that are shown as the same text.  Overrides are written in the order of
their names, those of one name in the order they came in.

Main statements:
* `script_eq_iff_written` — two orders give one script exactly if they give the values of each name
  in the same way;
* `script_order_iff` — all orders give one script exactly if no name has two values that are written
  differently.
-/
import LuaConfig.Proofs.Script.Fixpoint
import LuaConfig.Proofs.Script.Lines

namespace LuaConfig

open Lua

namespace Script

/-- An override as it is written: its name and the text of its value. -/
def written (o : Override) : String × String := (o.name, scalar o.value)

/-- The texts of the values of a name. -/
def textsOf (name : String) (os : List Override) : List String :=
  (os.filter (·.name = name)).map (scalar ·.value)

/-! ### Sorted lists -/

/-- Lists in the order of their names are told by the elements of each name. -/
theorem eq_of_filter_eq {xs ys : List (String × String)} (hxs : xs.Pairwise (·.1 ≤ ·.1))
    (hys : ys.Pairwise (·.1 ≤ ·.1))
    (h : ∀ name, xs.filter (·.1 = name) = ys.filter (·.1 = name)) : xs = ys := by
  induction xs generalizing ys with
  | nil =>
    cases ys with
    | nil => rfl
    | cons y ys => simpa using h y.1
  | cons x xs ih =>
    cases ys with
    | nil => simpa using h x.1
    | cons y ys =>
      rw [List.pairwise_cons] at hxs hys
      -- each of the first elements stands in the other list
      have hmem : ∀ {x y : String × String} {xs ys : List (String × String)},
          (x :: xs).filter (·.1 = x.1) = (y :: ys).filter (·.1 = x.1) →
          (∀ z ∈ ys, y.1 ≤ z.1) → y.1 ≤ x.1 := fun {x y xs ys} heq hle => by
        have hx : x ∈ (y :: ys).filter (·.1 = x.1) := by
          rw [← heq]
          simp
        obtain rfl | hx := List.mem_cons.mp (List.mem_filter.mp hx).1
        · exact String.le_refl _
        · exact hle x hx
      have hname : x.1 = y.1 :=
        String.le_antisymm (hmem (h y.1).symm hxs.1) (hmem (h x.1) hys.1)
      have hfirst := h x.1
      rw [List.filter_cons_of_pos (by simp), List.filter_cons_of_pos (by simp [hname])] at hfirst
      obtain ⟨rfl, htail⟩ := List.cons.inj hfirst
      refine congrArg (x :: ·) (ih hxs.2 hys.2 fun name => ?_)
      by_cases hn : x.1 = name
      · rw [← hn]
        exact htail
      · have := h name
        rwa [List.filter_cons_of_neg (by simpa using hn),
          List.filter_cons_of_neg (by simpa using hn)] at this

variable {os os' : List Override}

theorem filter_map_written (os : List Override) (name : String) :
    ((sortedOverrides os).map written).filter (·.1 = name) =
      (textsOf name os).map (Prod.mk name) := by
  have hfilter : ((sortedOverrides os).map written).filter (·.1 = name) =
      ((sortedOverrides os).filter (·.name = name)).map written := List.filter_map
  rw [hfilter, filter_sortedOverrides, textsOf, List.map_map]
  refine List.map_congr_left fun o ho => ?_
  have hname : o.name = name := by simpa using (List.mem_filter.mp ho).2
  rw [written, hname]
  rfl

theorem pairwise_map_written (os : List Override) :
    ((sortedOverrides os).map written).Pairwise (·.1 ≤ ·.1) :=
  List.pairwise_map.mpr (sortedOverrides_pairwise os)

/-- Sorted overrides are written alike exactly if they give the values of each name alike. -/
theorem map_written_iff (os os' : List Override) :
    (sortedOverrides os).map written = (sortedOverrides os').map written ↔
      ∀ name, textsOf name os = textsOf name os' := by
  constructor
  · intro h name
    have hfilter := congrArg (List.filter (·.1 = name)) h
    rw [filter_map_written, filter_map_written] at hfilter
    exact List.map_injective_iff.mpr (fun _ _ => congrArg Prod.snd) hfilter
  · intro h
    refine eq_of_filter_eq (pairwise_map_written os) (pairwise_map_written os') fun name => ?_
    rw [filter_map_written, filter_map_written, h name]

/-- The assignment of a name and the text of a value. -/
def joined (p : String × String) : String := key p.1 ++ "=" ++ p.2

theorem names_sortedOverrides (h : os.Perm os') :
    (sortedOverrides os).map (·.name) = (sortedOverrides os').map (·.name) := by
  have hperm : (sortedOverrides os).Perm (sortedOverrides os') :=
    (sortedOverrides_perm os).trans (h.trans (sortedOverrides_perm os').symm)
  exact (hperm.map (·.name)).eq_of_pairwise (fun _ _ _ _ => String.le_antisymm)
    (List.pairwise_map.mpr (sortedOverrides_pairwise os))
    (List.pairwise_map.mpr (sortedOverrides_pairwise os'))

/-- Where the names are the same, the assignments tell how overrides are written. -/
theorem map_assignment_iff (h : os.Perm os') :
    (sortedOverrides os).map assignment = (sortedOverrides os').map assignment ↔
      (sortedOverrides os).map written = (sortedOverrides os').map written := by
  constructor
  · intro hassignments
    have hnamed : (sortedOverrides os).map (fun o => (o.name, assignment o)) =
        (sortedOverrides os').map (fun o => (o.name, assignment o)) := by
      rw [← List.zip_map', ← List.zip_map', names_sortedOverrides h, hassignments]
    -- where the names agree, the values can be told from the lines
    have hinjective : Function.Injective fun p : String × String => (p.1, joined p) := by
      rintro ⟨name, text⟩ ⟨name', text'⟩ heq
      obtain ⟨rfl, htext⟩ := Prod.mk.inj heq
      have hlist := congrArg String.toList htext
      simp only [joined, String.toList_append] at hlist
      rw [String.toList_inj.mp (List.append_cancel_left hlist)]
    refine List.map_injective_iff.mpr hinjective ?_
    rw [List.map_map, List.map_map]
    exact hnamed
  · intro hwritten
    have hjoined := congrArg (List.map joined) hwritten
    rw [List.map_map, List.map_map] at hjoined
    exact hjoined

theorem length_map_assignment (h : os.Perm os') :
    ((sortedOverrides os).map assignment).length =
      ((sortedOverrides os').map assignment).length := by
  rw [List.length_map, List.length_map, (sortedOverrides_perm os).length_eq,
    (sortedOverrides_perm os').length_eq, h.length_eq]

end Script

namespace Level

open Script

variable {os os' : List Override}

/-- The lines of a script before its overrides, and those of its overrides. -/
theorem scriptLines_split (dialect : Dialect) : ∃ before after : Level → List String,
    (∀ level os, before (level.withOverrides os) = before level) ∧
      ∀ level, level.scriptLines dialect = before level ++
        (Rendition.lines overridesField.key
          (.block ((sortedOverrides level.overrides).map assignment)) ++ after level) := by
  obtain ⟨pre, post, hfields, hpre⟩ := List.eq_append_cons_of_mem (overridesField_mem dialect)
  refine ⟨fun level => "return \x7b" :: pre.flatMap (fieldLines level),
    fun level => post.flatMap (fieldLines level) ++ ["\x7d"], fun level os => ?_, fun level => ?_⟩
  · refine congrArg _ (List.flatMap_congr fun f hf => ?_)
    have hmem : f ∈ fields := mem_fields_of_dialect (by rw [hfields]; simp [hf])
    obtain rfl | ⟨-, hget⟩ := kind_or_overrides hmem
    · exact absurd hf hpre
    · rw [fieldLines, fieldLines, hget]
  · rw [scriptLines, hfields, List.flatMap_append, List.flatMap_cons]
    simp only [List.cons_append, List.append_assoc]
    rfl

/-- Two orders of overrides give one script exactly if they give the values of each name in the same
way. -/
theorem script_eq_iff_written (level : Level) (dialect : Dialect) (h : os.Perm os') :
    (level.withOverrides os).script dialect = (level.withOverrides os').script dialect ↔
      ∀ name, textsOf name os = textsOf name os' := by
  rw [← map_written_iff, ← map_assignment_iff h]
  constructor
  · intro hscript
    obtain ⟨before, after, hbefore, hlines⟩ := scriptLines_split dialect
    -- the lines before those of the overrides are the same, and as many are theirs
    have hlist := congrArg String.toList hscript
    rw [script, script, toList_join_ended, toList_join_ended, hlines, hlines, ended_append,
      ended_append, hbefore, hbefore, ended_append, ended_append] at hlist
    refine eq_of_block (fun s hs => ?_) (fun s hs => ?_) (length_map_assignment h)
      (List.append_cancel_left hlist)
    · obtain ⟨o, -, rfl⟩ := List.mem_map.mp hs
      exact (printable_assignment o).oneLine
    · obtain ⟨o, -, rfl⟩ := List.mem_map.mp hs
      exact (printable_assignment o).oneLine
  · intro hassignments
    refine script_congr fun f hf => ?_
    obtain rfl | ⟨-, hget⟩ := kind_or_overrides (mem_fields_of_dialect hf)
    · exact congrArg (fun items => Rendition.lines overridesField.key (.block items)) hassignments
    · rw [fieldLines, fieldLines, hget, hget]

/-! ### Tables -/

open Reading

variable {entries : List (Value × Value)}

theorem mem_overridesAmong {o : Override} :
    o ∈ overridesAmong entries ↔
      ∃ e ∈ entries, e.1.text? = some o.name ∧ e.2.scalar? = some o.value := by
  rw [overridesAmong, List.mem_filterMap]
  refine exists_congr fun e => and_congr_right fun _ => ?_
  cases hname : e.1.text? <;> cases hvalue : e.2.scalar? <;> cases o <;>
    simp [hname, hvalue]

theorem overridesAmong_perm {entries' : List (Value × Value)} (h : entries'.Perm entries) :
    (overridesAmong entries').Perm (overridesAmong entries) := h.filterMap _

/-- A table may give the entry of any override first. -/
theorem exists_perm_first {o : Override} (h : o ∈ overridesAmong entries) :
    ∃ entries' rest, entries'.Perm entries ∧ overridesAmong entries' = o :: rest := by
  obtain ⟨e, he, ho⟩ := List.mem_filterMap.mp h
  refine ⟨e :: entries.erase e, overridesAmong (entries.erase e),
    (List.perm_cons_erase he).symm, ?_⟩
  exact List.filterMap_cons_some ho

theorem textsOf_first (o : Override) (rest : List Override) :
    (textsOf o.name (o :: rest)).head? = some (scalar o.value) := by
  simp [textsOf]

/-- Values of one name that are all written alike are so in all orders. -/
theorem textsOf_of_perm (h : os'.Perm os) {name : String}
    (halike : ∀ o ∈ os, ∀ o' ∈ os, o.name = o'.name → scalar o.value = scalar o'.value) :
    textsOf name os' = textsOf name os := by
  have hperm : (textsOf name os').Perm (textsOf name os) := (h.filter _).map _
  have hall (texts : List String) : texts.Pairwise fun _ _ => True :=
    List.pairwise_of_forall fun _ _ => trivial
  refine hperm.eq_of_pairwise (fun s t hs ht _ _ => ?_) (hall _) (hall _)
  · obtain ⟨o, ho, rfl⟩ := List.mem_map.mp hs
    obtain ⟨o', ho', rfl⟩ := List.mem_map.mp ht
    simp only [List.mem_filter, decide_eq_true_eq] at ho ho'
    exact halike o (h.mem_iff.mp ho.1) o' ho'.1 (ho.2.trans ho'.2.symm)

/-- The script of a level does not depend on the order in which a table gives its overrides exactly
if all values that have one name are written alike. -/
theorem script_order_iff (entries : List (Value × Value)) (level : Level) (dialect : Dialect) :
    (∀ entries', entries'.Perm entries →
      (level.withOverrides (overridesAmong entries')).script dialect =
        (level.withOverrides (overridesAmong entries)).script dialect) ↔
      ∀ o ∈ overridesAmong entries, ∀ o' ∈ overridesAmong entries, o.name = o'.name →
        scalar o.value = scalar o'.value := by
  constructor
  · intro h o ho o' ho' hname
    -- the orders in which the two overrides come first
    obtain ⟨first, rest, hfirst, hrest⟩ := exists_perm_first ho
    obtain ⟨first', rest', hfirst', hrest'⟩ := exists_perm_first ho'
    have hscript := (h first hfirst).trans (h first' hfirst').symm
    have htexts := (script_eq_iff_written level dialect
      (overridesAmong_perm (hfirst.trans hfirst'.symm))).mp hscript o.name
    have hhead := congrArg List.head? htexts
    rw [hrest, hrest', textsOf_first, hname, textsOf_first] at hhead
    exact Option.some.inj hhead
  · intro halike entries' hperm
    exact (script_eq_iff_written level dialect (overridesAmong_perm hperm)).mpr fun name =>
      textsOf_of_perm (overridesAmong_perm hperm) halike

/-- A table with an integer and its numeral among its keys. -/
def collision : List (Value × Value) :=
  [(.int 2, .ofString "a"), (.ofString "2", .ofString "b")]

/-- The script of a level depends on the order in which a table gives the values of different
keys. -/
theorem script_collision :
    (collision.map Prod.fst).Nodup ∧ collision.reverse.Perm collision ∧
      ∀ dialect, (withOverrides {} (overridesAmong collision.reverse)).script dialect ≠
        (withOverrides {} (overridesAmong collision)).script dialect := by
  refine ⟨by decide +kernel, List.reverse_perm _, fun dialect hscript => ?_⟩
  have htexts := (script_eq_iff_written {} dialect
    (overridesAmong_perm (List.reverse_perm collision))).mp hscript "2"
  revert htexts
  decide +kernel

/-- Keys that are texts have names of their own, so that the order does not matter. -/
theorem script_of_text_keys (level : Level) (dialect : Dialect)
    (hnodup : (entries.map Prod.fst).Nodup) (htext : ∀ e ∈ entries, ∃ s, e.1 = .ofString s)
    {entries' : List (Value × Value)} (h : entries'.Perm entries) :
    (level.withOverrides (overridesAmong entries')).script dialect =
      (level.withOverrides (overridesAmong entries)).script dialect := by
  refine (script_eq_iff_written level dialect (overridesAmong_perm h)).mpr fun name =>
    textsOf_of_perm (overridesAmong_perm h) fun o ho o' ho' hname => ?_
  obtain ⟨e, he, hkey, hvalue⟩ := mem_overridesAmong.mp ho
  obtain ⟨e', he', hkey', hvalue'⟩ := mem_overridesAmong.mp ho'
  have hsame : e = e' := by
    obtain ⟨s, hs⟩ := htext e he
    obtain ⟨s', hs'⟩ := htext e' he'
    rw [hs, text_ofString_value] at hkey
    rw [hs', text_ofString_value] at hkey'
    refine List.inj_on_of_nodup_map hnodup he he' ?_
    rw [hs, hs', Option.some.inj hkey, Option.some.inj hkey', hname]
  rw [hsame, hvalue'] at hvalue
  rw [Option.some.inj hvalue]

end Level

end LuaConfig
