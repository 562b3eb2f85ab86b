/-
The fields of the records.

Whatever runs over the fields of a record relies on two facts about their list (`Field.Complete`):
no field disturbs another, and together they make up the record.
-/
import LuaConfig.Record.Field
import Mathlib

namespace LuaConfig

namespace Field

variable {ρ : Type}

/-- The fields have different keys, and to set one leaves the other as it is. -/
def Apart (f g : Field ρ) : Prop :=
  f.key ≠ g.key ∧ (∀ v r, g.get (f.set v r) = g.get r) ∧ ∀ v r, f.get (g.set v r) = f.get r

theorem Apart.symm {f g : Field ρ} (h : f.Apart g) : g.Apart f :=
  ⟨h.1.symm, h.2.2, h.2.1⟩

theorem get_foldl_of_apart {f : Field ρ} {fields : List (Field ρ)} (h : ∀ g ∈ fields, f.Apart g)
    (value : (g : Field ρ) → g.kind.Value) (r : ρ) :
    f.get (fields.foldl (fun r g => g.set (value g) r) r) = f.get r := by
  induction fields generalizing r with
  | nil => rfl
  | cons g fields ih =>
    rw [List.forall_mem_cons] at h
    rw [List.foldl_cons, ih h.2, h.1.2.2]

/-- When fields that are apart are set one after the other, each keeps its value. -/
theorem get_foldl {fields : List (Field ρ)} (h : fields.Pairwise Apart)
    (value : (f : Field ρ) → f.kind.Value) (r : ρ) {f : Field ρ} (hf : f ∈ fields) :
    f.get (fields.foldl (fun r f => f.set (value f) r) r) = value f := by
  induction fields generalizing r with
  | nil => cases hf
  | cons g fields ih =>
    rw [List.pairwise_cons] at h
    rw [List.foldl_cons]
    rcases List.mem_cons.mp hf with rfl | hf
    · rw [get_foldl_of_apart h.1, f.get_set]
    · exact ih h.2 _ hf

/-- The fields are apart from each other, and records with the same fields are the same. -/
structure Complete (fields : List (Field ρ)) : Prop where
  apart : fields.Pairwise Apart
  ext : ∀ {a b : ρ}, (∀ f ∈ fields, f.get a = f.get b) → a = b

theorem Complete.apart_of_key {fields : List (Field ρ)} (h : Complete fields) {f g : Field ρ}
    (hf : f ∈ fields) (hg : g ∈ fields) (hkey : f.key ≠ g.key) : f.Apart g := by
  have : Std.Symm fun f g : Field ρ => f.Apart g := ⟨fun _ _ => Apart.symm⟩
  have hpairs : fields.Pairwise fun f g => f.Apart g := h.apart
  exact hpairs.forall hf hg fun heq => hkey (heq ▸ rfl)

theorem Complete.nodup_keys {fields : List (Field ρ)} (h : Complete fields) :
    (fields.map (·.key)).Nodup :=
  List.pairwise_map.mpr (h.apart.imp fun hapart => hapart.1)

end Field

theorem Override.complete_fields : Field.Complete Override.fields where
  apart := by simp [fields, Field.Apart]
  ext {a b} h := by
    cases a
    cases b
    simpa [fields] using h

theorem OptionItem.complete_fields : Field.Complete OptionItem.fields where
  apart := by simp [fields, Field.Apart]
  ext {a b} h := by
    cases a
    cases b
    simpa [fields] using h

theorem ModOption.complete_fields : Field.Complete ModOption.fields where
  apart := by simp [fields, Field.Apart]
  ext {a b} h := by
    cases a
    cases b
    simpa [fields] using h

theorem ModInfo.complete_fields : Field.Complete ModInfo.fields where
  apart := by
    simp only [fields, List.pairwise_cons, List.forall_mem_cons]
    simp [Field.Apart, optionsKey]
  ext {a b} h := by
    simp only [fields, List.forall_mem_cons] at h
    obtain ⟨h1, h2, h3, h4, h5, h6, h7, h8, h9, h10, h11, h12, h13, h14, h15, h16, h17, h18, h19,
      h20, h21, h22, -⟩ := h
    cases a
    cases b
    exact mk.injEq .. ▸ ⟨h1, h2, h3, h4, h5, h6, h7, h8, h9, h10, h11, h12, h13, h14, h15, h16,
      h17, h18, h19, h20, h21, h22⟩

theorem Level.complete_fields : Field.Complete Level.fields where
  apart := by
    simp only [fields, List.pairwise_cons, List.forall_mem_cons]
    simp [Field.Apart, idField, nameField, descField, versionField, locationField, playstyleField,
      hideMinimapField, maxPlaylistPositionField, minPlaylistPositionField, numRandomSetPiecesField,
      overrideLevelStringField, settingsIdField, settingsNameField, settingsDescField,
      worldgenIdField, worldgenNameField, worldgenDescField, overridesField, randomSetPiecesField,
      requiredPrefabsField, requiredSetpiecesField, substitutesField, backgroundNodeRangeField]
  ext {a b} h := by
    simp only [fields, List.forall_mem_cons] at h
    obtain ⟨h1, h2, h3, h4, h5, h6, h7, h8, h9, h10, h11, h12, h13, h14, h15, h16, h17, h18, h19,
      h20, h21, h22, h23, -⟩ := h
    cases a
    cases b
    exact mk.injEq .. ▸ ⟨h1, h2, h3, h4, h5, h6, h7, h8, h9, h10, h11, h12, h13, h14, h15, h16,
      h17, h18, h19, h20, h21, h22, h23⟩

end LuaConfig
