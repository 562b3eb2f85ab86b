/-
Options and choices among other values.

A list of options has an option for each table among its values and an entry that is passed over for
every other value (`length_options_add_length_skipped`).  What is read of an option or a choice is
told by what its own table holds (`option_eq_of_alike`, `item_eq_of_alike`), so that other values
may come and go between the tables.

Main statement:
* `options_among_strays` — the options of a list, and of one that has the same options among other
  strays.
-/
import LuaConfig.Proofs.Script.Footprint
import LuaConfig.Proofs.Script.Required

namespace LuaConfig

open Lua

/-- Lists whose tables correspond one after the other, whatever other values stand between them. -/
def Aligned (r : Value → Value → Prop) (vs ws : List Value) : Prop :=
  List.Forall₂ r (vs.filter Value.isTable) (ws.filter Value.isTable)

/-- What is made of the tables in lists that correspond is the same. -/
theorem Aligned.map_eq {α : Type} {r : Value → Value → Prop} {f g : Value → α}
    {vs ws : List Value} (h : Aligned r vs ws) (hfg : ∀ {v w}, r v w → g w = f v) :
    (ws.filter Value.isTable).map g = (vs.filter Value.isTable).map f := by
  have hmap : List.Forall₂ Eq ((ws.filter Value.isTable).map g)
      ((vs.filter Value.isTable).map f) :=
    List.forall₂_map_left_iff.mpr (List.forall₂_map_right_iff.mpr (h.flip.imp fun _ _ => hfg))
  exact List.forall₂_eq_eq_eq ▸ hmap

/-- A list corresponds to one that has the same tables. -/
theorem Aligned.of_filter_eq {r : Value → Value → Prop} {vs ws : List Value}
    (h : ws.filter Value.isTable = vs.filter Value.isTable)
    (hr : ∀ v ∈ vs.filter Value.isTable, r v v) : Aligned r vs ws := by
  rw [Aligned, h]
  exact List.forall₂_same.mpr hr

/-- Two stores that differ only in the lists at the given places, and there in values that are no
tables. -/
structure Lua.Store.Strayed (σ σ' : Store) (lists : List Nat) : Prop where
  elsewhere {ref : Nat} : ref ∉ lists → (σ.table ref).SameContents (σ'.table ref)
  tables_eq {ref : Nat} : ref ∈ lists →
    Reading.tables σ' (.table ref) = Reading.tables σ (.table ref)

namespace Reading

/-! ### Entries -/

section Entries

variable (σ : Store) (v : Value)

theorem tables_eq_filter : tables σ v = (values σ v).filter Value.isTable := by
  refine List.filter_congr fun w _ => ?_
  cases w <;> rfl

theorem map_tables {α : Type} (f : Value → α) :
    (tables σ v).map f = ((entries σ v).filter (·.2.isTable)).map fun e => f e.2 := by
  rw [tables_eq_filter, values, List.filter_map, List.map_map]
  rfl

theorem skipped_eq_map : skipped σ v =
    ((entries σ v).filter (!·.2.isTable)).map fun e => ⟨e.1.text?.getD "", e.2.kindName⟩ := by
  rw [skipped]
  induction entries σ v with
  | nil => rfl
  | cons e es ih =>
    obtain ⟨key, value⟩ := e
    cases value <;> simp [Value.isTable, ih]

/-- Each entry of a list of options is an option or is passed over. -/
theorem length_options_add_length_skipped :
    (options σ v).length + (skipped σ v).length = (entries σ v).length := by
  rw [options, map_tables, skipped_eq_map, List.length_map, List.length_map]
  exact (List.length_eq_length_filter_add _).symm

end Entries

/-! ### What options and choices are read from -/

variable {σ σ' : Store} {v w : Value}

/-- Choices whose fields have the same values. -/
def ItemAlike (σ σ' : Store) (v w : Value) : Prop :=
  ∀ f ∈ OptionItem.fields, field σ' w f.key = field σ v f.key

/-- Values that are read alike as the field of an option: lists of choices have the same choices
among any other values, all other lists have the same entries. -/
def Alike (σ σ' : Store) : Kind → Value → Value → Prop
  | .texts, v, w => values σ' w = values σ v
  | .numbers, v, w => values σ' w = values σ v
  | .overrides, v, w => entries σ' w = entries σ v
  | .items, v, w => Aligned (ItemAlike σ σ') (values σ v) (values σ' w)
  | _, v, w => w = v

/-- Options whose fields are read alike. -/
def OptionAlike (σ σ' : Store) (v w : Value) : Prop :=
  ∀ f ∈ ModOption.fields, Alike σ σ' f.kind (field σ v f.key) (field σ' w f.key)

theorem item_eq_of_alike (h : ItemAlike σ σ' v w) : item σ' w = item σ v := by
  have hdata : field σ' w "data" = field σ v "data" := h _ (List.mem_cons_of_mem _ (.head _))
  have hdescription : field σ' w "description" = field σ v "description" := h _ (.head _)
  rw [item, item, hdata, hdescription]

theorem items_eq_of_aligned (h : Aligned (ItemAlike σ σ') (values σ v) (values σ' w)) :
    items σ' w = items σ v := by
  rw [items, items, tables_eq_filter, tables_eq_filter]
  exact h.map_eq item_eq_of_alike

theorem leaf_eq_of_alike {kind : Kind} (h : Alike σ σ' kind v w) :
    leaf σ' kind w = leaf σ kind v := by
  cases kind with
  | texts => exact congrArg (List.filterMap Value.text?) h
  | items => exact items_eq_of_aligned h
  | numbers => exact congrArg (List.filterMap Value.double?) h
  | overrides => exact congrArg overridesAmong h
  | _ => rw [show w = v from h]; rfl

theorem option_eq_of_alike (h : OptionAlike σ σ' v w) : option σ' w = option σ v := by
  rw [option, option, record, record]
  refine List.foldl_ext _ _ _ fun r f hf => ?_
  rw [leaf_eq_of_alike (h f hf)]

theorem options_eq_of_aligned (h : Aligned (OptionAlike σ σ') (values σ v) (values σ' w)) :
    options σ' w = options σ v := by
  rw [options, options, tables_eq_filter, tables_eq_filter]
  exact h.map_eq option_eq_of_alike

/-! ### Stores that differ in strays -/

/-- The tables that the field of an option is read from by their own keys or as a list of texts; a
list in which choices are looked for is none of them. -/
def ownTables (σ : Store) : Kind → Value → List Nat
  | .items, v => (tables σ v).flatMap tableOf
  | kind, v => leafTables σ kind v

/-- The tables that the options of a list are read from by their own keys or as a list of texts. -/
def optionsOwnTables (σ : Store) (v : Value) : List Nat :=
  (tables σ v).flatMap fun w => tableOf w ++ nestedTables (ownTables σ) σ ModOption.fields w

section Strayed

variable {lists : List Nat}

theorem agree_of_strayed (h : σ.Strayed σ' lists) {refs : List Nat}
    (hrefs : ∀ ref ∈ refs, ref ∉ lists) : σ.Agree σ' refs :=
  fun ref href => h.elsewhere (hrefs ref href)

theorem tables_of_strayed (h : σ.Strayed σ' lists) (v : Value) : tables σ' v = tables σ v := by
  cases v with
  | table ref =>
    by_cases href : ref ∈ lists
    · exact h.tables_eq href
    · exact tables_eq (agree_of_strayed h (by simpa [tableOf] using href))
  | _ => rfl

theorem aligned_of_strayed (h : σ.Strayed σ' lists) {r : Value → Value → Prop} {v : Value}
    (hr : ∀ w ∈ tables σ v, r w w) : Aligned r (values σ v) (values σ' v) := by
  have htables := tables_of_strayed h v
  rw [tables_eq_filter, tables_eq_filter] at htables
  rw [tables_eq_filter] at hr
  exact .of_filter_eq htables hr

theorem alike_of_strayed (h : σ.Strayed σ' lists) {kind : Kind} {v : Value}
    (hown : ∀ ref ∈ ownTables σ kind v, ref ∉ lists) : Alike σ σ' kind v v := by
  cases kind with
  | texts => exact values_eq (agree_of_strayed h hown)
  | numbers => exact values_eq (agree_of_strayed h hown)
  | overrides => exact entries_eq (agree_of_strayed h hown)
  | items =>
    -- the list itself may be changed: its tables are kept by `aligned_of_strayed`
    refine aligned_of_strayed h fun w hw f _ => field_eq (agree_of_strayed h fun ref href => ?_) _
    exact hown ref (List.mem_flatMap_of_mem hw href)
  | _ => rfl

theorem optionAlike_of_strayed (h : σ.Strayed σ' lists)
    (hown : ∀ ref ∈ tableOf v ++ nestedTables (ownTables σ) σ ModOption.fields v, ref ∉ lists) :
    OptionAlike σ σ' v v := by
  obtain ⟨hself, hnested⟩ := List.forall_mem_append.mp hown
  intro f hf
  rw [field_eq (agree_of_strayed h hself)]
  exact alike_of_strayed h fun ref href => hnested ref (List.mem_flatMap.mpr ⟨f, hf, href⟩)

/-- Values that are no tables come and go in lists of options and of choices. -/
theorem options_eq_of_strayed (h : σ.Strayed σ' lists)
    (hown : ∀ ref ∈ optionsOwnTables σ v, ref ∉ lists) : options σ' v = options σ v :=
  options_eq_of_aligned (aligned_of_strayed h fun _ hw => optionAlike_of_strayed h
    fun ref href => hown ref (List.mem_flatMap_of_mem hw href))

end Strayed

/-! ### Runs -/

/-- What a mod's script tells of its options, and what it is told about the other entries. -/
theorem ofOutcome_of_options {o : Sandbox.Outcome} {root : Value} {ref : Nat}
    (hroot : o.root = .ok root) (hoptions : ModInfo.optionsOf o.store root = .table ref) :
    ∃ info, (ModInfo.ofOutcome o).result = .ok info ∧
      info.configurationOptions = options o.store (.table ref) ∧
      (ModInfo.ofOutcome o).skipped = skipped o.store (.table ref) := by
  refine ⟨record (value o.store) o.store root ModInfo.fields {}, ?_, ?_, ?_⟩
  · rw [ModInfo.ofOutcome, Parsed.ofOutcome, hroot]
    exact ModInfo.ofValue_of_options hoptions
  · exact congrArg (options o.store) hoptions
  · rw [ModInfo.ofOutcome, Parsed.ofOutcome, hroot]
    exact congrArg (skipped o.store) hoptions

/-- A list of options has an option for each table among its values, in their order, and every other
entry is passed over once; among choices, values that are no tables are left out and nothing is said
of them.  An option or a choice depends on its own table only, so that all of them stay as they are
when values that are no tables come and go between them: in two stores whose lists correspond, and
if tables are changed that serve as such lists and as nothing else. -/
theorem options_among_strays (σ : Store) (v : Value) :
    (options σ v = ((entries σ v).filter (·.2.isTable)).map (fun e => option σ e.2) ∧
      skipped σ v = ((entries σ v).filter (!·.2.isTable)).map
        (fun e => ⟨e.1.text?.getD "", e.2.kindName⟩) ∧
      (options σ v).length + (skipped σ v).length = (entries σ v).length) ∧
    (∀ w, items σ w = ((entries σ w).filter (·.2.isTable)).map fun e => item σ e.2) ∧
    (∀ o root, o.root = .ok root → o.store = σ → ModInfo.optionsOf σ root = v →
      v.isTable = true → ∃ info, (ModInfo.ofOutcome o).result = .ok info ∧
        info.configurationOptions = options σ v ∧ (ModInfo.ofOutcome o).skipped = skipped σ v) ∧
    ∀ σ', (∀ w w', ItemAlike σ σ' w w' → item σ' w' = item σ w) ∧
      (∀ w w', Aligned (ItemAlike σ σ') (values σ w) (values σ' w') → items σ' w' = items σ w) ∧
      (∀ w w', OptionAlike σ σ' w w' → option σ' w' = option σ w) ∧
      (∀ v', Aligned (OptionAlike σ σ') (values σ v) (values σ' v') →
        options σ' v' = options σ v) ∧
      ∀ lists, σ.Strayed σ' lists → (∀ ref ∈ optionsOwnTables σ v, ref ∉ lists) →
        options σ' v = options σ v := by
  refine ⟨⟨map_tables σ v (option σ), skipped_eq_map σ v, length_options_add_length_skipped σ v⟩,
    fun w => map_tables σ w (item σ), ?_, fun σ' => ⟨fun _ _ => item_eq_of_alike,
      fun _ _ => items_eq_of_aligned, fun _ _ => option_eq_of_alike,
      fun _ => options_eq_of_aligned, fun _ => options_eq_of_strayed⟩⟩
  rintro o root hroot rfl rfl htable
  cases hoptions : ModInfo.optionsOf o.store root with
  | table ref => exact ofOutcome_of_options hroot hoptions
  | _ =>
    rw [hoptions] at htable
    cases htable

/-- A store with a mod of two options that share their list of choices. -/
def sharingStore (tags : Value) (options choices : Array Value) : Store :=
  { Sandbox.emptyStore {} with
    tables := #[Sandbox.tableOf [(ModInfo.optionsKey, .table 1)], { positions := options },
      Sandbox.tableOf [("label", .ofString "size"), ("options", .table 4)],
      Sandbox.tableOf [("tags", tags), ("options", .table 4)], { positions := choices },
      Sandbox.tableOf [("data", .int 1)]] }

/-- The shared store where only the lists differ. -/
theorem strayed_sharingStore (tags : Value) {options options' choices choices' : Array Value}
    (hoptions : tables (sharingStore tags options' choices') (.table 1) =
      tables (sharingStore tags options choices) (.table 1))
    (hchoices : tables (sharingStore tags options' choices') (.table 4) =
      tables (sharingStore tags options choices) (.table 4)) :
    (sharingStore tags options choices).Strayed (sharingStore tags options' choices') [1, 4] where
  elsewhere {ref} href := by
    match ref with
    | 0 | 2 | 3 | 5 => rfl
    | 1 | 4 => exact absurd href (by decide)
    | n + 6 => rfl
  tables_eq {ref} href := by
    rcases List.mem_pair.mp href with rfl | rfl
    · exact hoptions
    · exact hchoices

/-- Strays among the options, and among the choices that these share. -/
theorem options_among_strays_sharing :
    ∃ σ σ', σ = sharingStore (.int 3) #[.table 2, .table 3] #[.int 7, .table 5] ∧
      σ' = sharingStore (.int 3) #[.bool true, .table 2, .ofString "none", .table 3]
        #[.table 5, .ofString "all"] ∧
      σ.Strayed σ' [1, 4] ∧
      ∃ info, (ModInfo.ofOutcome ⟨.ok (.table 0), σ'⟩).result = .ok info ∧
        info.configurationOptions = options σ (.table 1) ∧
        (ModInfo.ofOutcome ⟨.ok (.table 0), σ'⟩).skipped =
          [⟨"1", "boolean"⟩, ⟨"3", "string"⟩] := by
  let σ := sharingStore (.int 3) #[.table 2, .table 3] #[.int 7, .table 5]
  let σ' := sharingStore (.int 3) #[.bool true, .table 2, .ofString "none", .table 3]
    #[.table 5, .ofString "all"]
  have hoptions : ModInfo.optionsOf σ' (.table 0) = .table 1 := by decide
  have hskipped : skipped σ' (.table 1) = [⟨"1", "boolean"⟩, ⟨"3", "string"⟩] := by
    decide
  have hown : ∀ ref ∈ optionsOwnTables σ (.table 1), ref ∉ [1, 4] := by decide
  have hstrayed : σ.Strayed σ' [1, 4] :=
    strayed_sharingStore _ (by decide) (by decide)
  obtain ⟨-, -, hruns, -⟩ := options_among_strays σ' (.table 1)
  obtain ⟨info, hinfo, hmapped, htold⟩ := hruns ⟨_, σ'⟩ _ rfl rfl hoptions rfl
  obtain ⟨-, -, -, hstrays⟩ := options_among_strays σ (.table 1)
  obtain ⟨-, -, -, -, hlists⟩ := hstrays σ'
  exact ⟨σ, σ', rfl, rfl, hstrayed, info, hinfo, hmapped.trans (hlists _ hstrayed hown),
    htold.trans hskipped⟩

/-- A list of choices that is the list of tags as well: a text among the choices is a tag. -/
theorem options_among_strays_tags :
    ¬ ∀ (σ σ' : Store) (v : Value) (lists : List Nat), σ.Strayed σ' lists →
      (∀ ref ∈ lists, v = .table ref ∨
        ∃ w ∈ tables σ v, field σ w "options" = .table ref) →
      options σ' v = options σ v := by
  intro hall
  -- the second option has the changed list under `tags` too, and takes the text for a tag
  have hsame := hall (sharingStore (.table 4) #[.table 2, .table 3] #[.table 5])
    (sharingStore (.table 4) #[.table 2, .table 3] #[.table 5, .ofString "all"]) (.table 1) [1, 4]
    (strayed_sharingStore _ (by decide) (by decide)) (by decide)
  exact absurd hsame (by decide)

end Reading

end LuaConfig
