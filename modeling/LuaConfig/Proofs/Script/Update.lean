/-
A key of a table is set.

The keys of a script's table, the fields of the record that is read from it, the members of its
document and the entries of the script that is written for it go by the same names.  To set a key
changes the field of that name at most (`get_record_rawSet`), hence one member and one entry
(`rawSet_changes_one_member`).  Nothing is said of a table that is read from within itself.
-/
import LuaConfig.Json.Records
import LuaConfig.Proofs.Record.Field
import LuaConfig.Proofs.Script.Fixpoint
import LuaConfig.Proofs.Script.Metatables
import LuaConfig.Proofs.Script.Required

namespace LuaConfig

open Lua

/-! ### Fields -/

namespace Reading

variable {σ : Store} {ref : Nat}

/-- The tables that a record is read from, apart from the one that holds its fields. -/
def innerTables {ρ : Type} (σ : Store) (fields : List (Field ρ)) (ref : Nat) : List Nat :=
  nestedTables (valueTables σ) σ fields (.table ref)

/-- Each field of a record is the value of its key. -/
theorem get_record {ρ : Type} {fields : List (Field ρ)} (hapart : fields.Pairwise Field.Apart)
    (v : Value) (blank : ρ) {f : Field ρ} (hf : f ∈ fields) :
    f.get (record (value σ) σ v fields blank) = value σ f.kind (field σ v f.key) :=
  Field.get_foldl hapart (fun f => value σ f.kind (field σ v f.key)) blank hf

/-- To set a key sets the field of that name, and no other. -/
theorem get_record_rawSet {ρ : Type} {fields : List (Field ρ)}
    (hapart : fields.Pairwise Field.Apart) (hlive : ref < σ.tables.size)
    (hcoherent : (σ.table ref).Coherent) (hinner : ref ∉ innerTables σ fields ref)
    (key : Octets) (v : Value) (blank : ρ) {f : Field ρ} (hf : f ∈ fields) :
    let σ' := σ.rawSet ref (.str key) v
    f.get (record (value σ') σ' (.table ref) fields blank) =
      if Octets.ofString f.key = key then value σ' f.kind v
      else f.get (record (value σ) σ (.table ref) fields blank) := by
  intro σ'
  rw [get_record hapart _ _ hf, get_record hapart _ _ hf,
    field_rawSet σ hlive hcoherent key v f.key]
  split
  · rfl
  · exact value_eq (agree_field (agree_rawSet hinner (.str key) v) hf)

end Reading

/-! ### Documents -/

namespace Json

/-- A member of an object. -/
def HasMember (d : Json) (name : String) (value : Json) : Prop :=
  ∃ members, d = .object members ∧ (name, value) ∈ members

/-- Two objects have the same names in the same order, none of them twice, and the same values
except under one name. -/
def AgreeExcept (key : Octets) (d d' : Json) : Prop :=
  ∃ members members', d = .object members ∧ d' = .object members' ∧
    (members.map Prod.fst).Nodup ∧
    List.Forall₂ (fun m m' => m'.1 = m.1 ∧ (Octets.ofString m.1 ≠ key → m'.2 = m.2))
      members members'

/-- The document of what a value is taken for by a field that has a simple kind. -/
def ofSimple? : Kind → Value → Option Json
  | .text, v => some (.string (v.text?.getD ""))
  | .flag, v => some (.bool (v.flag?.getD false))
  | .whole, v => some (.integer (v.whole?.getD 0).toInt)
  | .number, v => some (.float (v.double?.getD 0))
  | _, _ => none

theorem write_value_of_simple {σ : Store} {kind : Kind} {v : Value} {d : Json}
    (h : ofSimple? kind v = some d) : (Codec.ofKind kind).write (Reading.value σ kind v) = d := by
  cases kind with
  | text | flag | whole | number => exact Option.some.inj h
  | _ => cases h

theorem write_open {ρ : Type} (blank : ρ) (fields : List (Field ρ)) (r : ρ) :
    (Codec.ofSchema (.open blank fields)).write r =
      .object (fields.map fun f => (f.key, (Codec.ofKind f.kind).write (f.get r))) :=
  congrArg Json.object List.map_map

/-- What becomes of a document when a key is set to a value: one member may change, none if no field
has the name, and what a simple field becomes is what the value is taken for. -/
structure Updated {ρ : Type} (fields : List (Field ρ)) (key : Octets) (v : Value) (d d' : Json) :
    Prop where
  agree : AgreeExcept key d d'
  unknown : (∀ f ∈ fields, Octets.ofString f.key ≠ key) → d' = d
  simple : ∀ f ∈ fields, Octets.ofString f.key = key → ∀ value,
    ofSimple? f.kind v = some value → HasMember d' f.key value

/-- A record of which one field is set. -/
theorem updated_of_get {ρ : Type} {fields : List (Field ρ)} (hcomplete : Field.Complete fields)
    (blank : ρ) {σ : Store} {key : Octets} {v : Value} {r r' : ρ}
    (h : ∀ f ∈ fields, f.get r' =
      if Octets.ofString f.key = key then Reading.value σ f.kind v else f.get r) :
    Updated fields key v ((Codec.ofSchema (.open blank fields)).write r)
      ((Codec.ofSchema (.open blank fields)).write r') where
  agree := by
    refine ⟨_, _, write_open blank fields r, write_open blank fields r', ?_, ?_⟩
    · rw [List.map_map]
      exact hcomplete.nodup_keys
    · rw [List.forall₂_map_left_iff, List.forall₂_map_right_iff, List.forall₂_same]
      refine fun f hf => ⟨rfl, fun hne => ?_⟩
      rw [h f hf, if_neg hne]
  unknown hunknown := by
    have hsame : r' = r := hcomplete.ext fun f hf => by rw [h f hf, if_neg (hunknown f hf)]
    rw [hsame]
  simple f hf hkey value hvalue := by
    refine ⟨_, write_open blank fields r', List.mem_map.mpr ⟨f, hf, ?_⟩⟩
    rw [h f hf, if_pos hkey, write_value_of_simple hvalue]

end Json

/-! ### Scripts -/

namespace Script

/-- The text of a field in a script. -/
def block {ρ : Type} (record : ρ) (f : Field ρ) : String :=
  String.join ((fieldLines record f).map (· ++ "\n"))

/-- The lines of a field begin with its key. -/
theorem exists_lines_eq (name : String) (r : Rendition) :
    ∃ text lines, r.lines name = ("  " ++ key name ++ ("=" ++ text)) :: lines := by
  have hempty : "=\x7b\x7d," = "=" ++ "\x7b\x7d," := by decide
  have hopen : "=\x7b" = "=" ++ "\x7b" := by decide
  match r with
  | .inline text =>
    exact ⟨text ++ ",", [], by simp only [Rendition.lines, String.append_assoc]⟩
  | .block [] => exact ⟨"\x7b\x7d,", [], by rw [Rendition.lines, hempty]⟩
  | .block (item :: items) =>
    exact ⟨"\x7b", _, by rw [Rendition.lines, hopen, List.cons_append]; simp⟩

end Script

namespace Level

open Script

theorem exists_block_eq {f : Field Level} (hf : f ∈ fields) (level : Level) :
    ∃ text, block level f = "  " ++ key f.key ++ "=" ++ text := by
  obtain ⟨c, hc⟩ := content_of_kind (kind_of_mem hf) (f.get level)
  obtain ⟨text, lines, hlines⟩ := exists_lines_eq f.key c.rendition
  refine ⟨text ++ "\n" ++ String.join (lines.map (· ++ "\n")), ?_⟩
  rw [block, fieldLines, rendition_eq_content, hc]
  simp only [Option.map_some, hlines, List.map_cons, String.join_cons, String.append_assoc]

/-- What becomes of the script of a level when a key is set: the block of that key may change, and
nothing if no field has the name. -/
structure ScriptUpdated (dialect : Dialect) (name : Octets) (level level' : Level) : Prop where
  unknown : (∀ f ∈ dialect.fields, Octets.ofString f.key ≠ name) →
    level'.script dialect = level.script dialect
  known : ∀ f ∈ dialect.fields, Octets.ofString f.key = name → ∃ before text text' after,
    block level f = "  " ++ key f.key ++ "=" ++ text ∧
    block level' f = "  " ++ key f.key ++ "=" ++ text' ∧
    level.script dialect = before ++ block level f ++ after ∧
    level'.script dialect = before ++ block level' f ++ after

/-- The script around the block of a field. -/
theorem script_around {dialect : Dialect} {pre post : List (Field Level)} {f : Field Level}
    (h : dialect.fields = pre ++ f :: post) (level : Level) :
    level.script dialect =
      String.join (("return \x7b" :: pre.flatMap (fieldLines level)).map (· ++ "\n")) ++
        block level f ++
        String.join ((post.flatMap (fieldLines level) ++ ["\x7d"]).map (· ++ "\n")) := by
  rw [script, scriptLines, h, block]
  simp only [List.flatMap_append, List.flatMap_cons, List.map_append, List.map_cons,
    List.cons_append, List.append_assoc, String.join_append, String.append_assoc, String.join_cons]

theorem scriptUpdated_of_get {σ : Store} {name : Octets} {v : Value} {level level' : Level}
    (h : ∀ f ∈ fields, f.get level' =
      if Octets.ofString f.key = name then Reading.value σ f.kind v else f.get level)
    (dialect : Dialect) : ScriptUpdated dialect name level level' where
  unknown hunknown := script_congr fun f hf => by
    rw [fieldLines, fieldLines, h f (mem_fields_of_dialect hf), if_neg (hunknown f hf)]
  known f hf hkey := by
    obtain ⟨pre, post, hfields⟩ := List.append_of_mem hf
    -- the fields around it have other keys
    have hothers : ∀ g ∈ pre ++ post, fieldLines level' g = fieldLines level g := by
      intro g hg
      have hmem : g ∈ dialect.fields := by
        rw [hfields]
        exact (List.sublist_cons_self f post).append_left pre |>.subset hg
      have hne : g.key ≠ f.key := by
        have hnodup := nodup_keys dialect
        rw [hfields, List.map_append, List.map_cons, List.nodup_middle, List.nodup_cons,
          ← List.map_append] at hnodup
        exact fun heq => hnodup.1 (heq ▸ List.mem_map_of_mem hg)
      have hget : g.get level' = g.get level := by
        rw [h g (mem_fields_of_dialect hmem), if_neg]
        exact fun heq => hne (Octets.ofString_inj (heq.trans hkey.symm))
      rw [fieldLines, fieldLines, hget]
    obtain ⟨text, htext⟩ := exists_block_eq (mem_fields_of_dialect hf) level
    obtain ⟨text', htext'⟩ := exists_block_eq (mem_fields_of_dialect hf) level'
    refine ⟨_, text, text', _, htext, htext', script_around hfields level, ?_⟩
    rw [script_around hfields level',
      List.flatMap_congr fun g hg => hothers g (List.mem_append_left post hg),
      List.flatMap_congr fun g hg => hothers g (List.mem_append_right pre hg)]

end Level

/-! ### Both kinds of records -/

open Reading Json

section

variable {σ : Store} {ref : Nat}

theorem Level.ofValue_rawSet (hlive : ref < σ.tables.size) (hcoherent : (σ.table ref).Coherent)
    (hinner : ref ∉ innerTables σ Level.fields ref) (key : Octets) (v : Value) :
    ∃ level level', Level.ofValue σ (.table ref) = .ok level ∧
      Level.ofValue (σ.rawSet ref (.str key) v) (.table ref) = .ok level' ∧
      Updated Level.fields key v (Codec.level.write level) (Codec.level.write level') ∧
      ∀ dialect, Level.ScriptUpdated dialect key level level' := by
  refine ⟨_, _, rfl, rfl, ?_, ?_⟩
  · exact updated_of_get Level.complete_fields {} fun f hf =>
      get_record_rawSet Level.complete_fields.apart hlive hcoherent hinner key v {} hf
  · exact Level.scriptUpdated_of_get fun f hf =>
      get_record_rawSet Level.complete_fields.apart hlive hcoherent hinner key v {} hf

theorem ModInfo.ofValue_rawSet (hlive : ref < σ.tables.size)
    (hcoherent : (σ.table ref).Coherent) (hinner : ref ∉ innerTables σ ModInfo.fields ref)
    (key : Octets) (v : Value) {r r' : Nat} (hr : ModInfo.optionsOf σ (.table ref) = .table r)
    (hr' : ModInfo.optionsOf (σ.rawSet ref (.str key) v) (.table ref) = .table r') :
    ∃ info info', ModInfo.ofValue σ (.table ref) = .ok info ∧
      ModInfo.ofValue (σ.rawSet ref (.str key) v) (.table ref) = .ok info' ∧
      Updated ModInfo.fields key v (Codec.modInfo.write info) (Codec.modInfo.write info') := by
  refine ⟨_, _, ofValue_of_options hr, ofValue_of_options hr', ?_⟩
  exact updated_of_get ModInfo.complete_fields {} fun f hf =>
    get_record_rawSet ModInfo.complete_fields.apart hlive hcoherent hinner key v {} hf

/-- To set a key of a table that is no part of its own record changes the member of that name in the
document of the record, and the block of that name in the script of a level; nothing changes if no
field has the name.  A field of a simple kind becomes what the value is taken for. -/
theorem rawSet_changes_one_member (hlive : ref < σ.tables.size)
    (hcoherent : (σ.table ref).Coherent) (key : Octets) (v : Value) :
    (ref ∉ innerTables σ Level.fields ref →
      ∃ level level', Level.ofValue σ (.table ref) = .ok level ∧
        Level.ofValue (σ.rawSet ref (.str key) v) (.table ref) = .ok level' ∧
        Updated Level.fields key v (Codec.level.write level) (Codec.level.write level') ∧
        ∀ dialect, Level.ScriptUpdated dialect key level level') ∧
    (ref ∉ innerTables σ ModInfo.fields ref →
      ∀ r r', ModInfo.optionsOf σ (.table ref) = .table r →
        ModInfo.optionsOf (σ.rawSet ref (.str key) v) (.table ref) = .table r' →
        ∃ info info', ModInfo.ofValue σ (.table ref) = .ok info ∧
          ModInfo.ofValue (σ.rawSet ref (.str key) v) (.table ref) = .ok info' ∧
          Updated ModInfo.fields key v (Codec.modInfo.write info) (Codec.modInfo.write info')) :=
  ⟨fun hinner => Level.ofValue_rawSet hlive hcoherent hinner key v,
    fun hinner _ _ hr hr' => ModInfo.ofValue_rawSet hlive hcoherent hinner key v hr hr'⟩

end

theorem rawSet_changes_one_member_name :
    0 < plainStore.tables.size ∧ (plainStore.table 0).Coherent ∧
      0 ∉ innerTables plainStore Level.fields 0 ∧ 0 ∉ innerTables plainStore ModInfo.fields 0 ∧
      ∃ level info,
        Level.ofValue (plainStore.rawSet 0 (.ofString "name") (.int 7)) (.table 0) = .ok level ∧
        ModInfo.ofValue (plainStore.rawSet 0 (.ofString "name") (.int 7)) (.table 0) = .ok info ∧
        HasMember (Codec.level.write level) "name" (.string "7") ∧
        HasMember (Codec.modInfo.write info) "name" (.string "7") := by
  have hlive : 0 < plainStore.tables.size := by decide
  have hcoherent : (plainStore.table 0).Coherent :=
    (Table.coherent_empty .straight).setEntry (.ofString ModInfo.optionsKey) (.table 1)
  have hlevel : 0 ∉ innerTables plainStore Level.fields 0 := by decide +kernel
  have hinfo : 0 ∉ innerTables plainStore ModInfo.fields 0 := by decide +kernel
  have hoptions : ModInfo.optionsOf plainStore (.table 0) = .table 1 := by decide +kernel
  have hoptions' : ModInfo.optionsOf (plainStore.rawSet 0 (.ofString "name") (.int 7)) (.table 0) =
      .table 1 := by decide +kernel
  have htext : (Value.int 7).text? = some "7" := by decide +kernel
  obtain ⟨hlevels, hmods⟩ :=
    rawSet_changes_one_member hlive hcoherent (Octets.ofString "name") (.int 7)
  obtain ⟨_, level, -, hread, hupdated, -⟩ := hlevels hlevel
  obtain ⟨_, info, -, hread', hupdated'⟩ := hmods hinfo 1 1 hoptions hoptions'
  refine ⟨hlive, hcoherent, hlevel, hinfo, level, info, hread, hread', ?_, ?_⟩
  · exact hupdated.simple Level.nameField (by simp [Level.fields]) rfl _
      (by simp only [ofSimple?, Level.nameField, htext, Option.getD_some])
  · exact hupdated'.simple _ (List.mem_cons_of_mem _ List.mem_cons_self) rfl _
      (by simp only [ofSimple?, htext, Option.getD_some])

end LuaConfig
