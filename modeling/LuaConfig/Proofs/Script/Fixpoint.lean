/-
Scripts that are written again.

The script of a level that has been read back is a fixed point: reading it and writing it once more
changes nothing, in whatever order the overrides come back.  It is the script that was read exactly
if no name of an override repeats and no number is the zero with a minus sign.
-/
import LuaConfig.Proofs.Script.Extent
import LuaConfig.Proofs.Script.RoundTrip

namespace LuaConfig.Level

open Lua Script

/-- The numbers that a script of the level carries. -/
def writtenNumbers (level : Level) (dialect : Dialect) : List Float :=
  dialect.fields.flatMap fun f => numbersOf f.kind (f.get level)

theorem scriptLines_eq (level : Level) (dialect : Dialect) :
    level.scriptLines dialect =
      "return \x7b" :: (dialect.fields.flatMap fun f => linesOf f.key f.kind (f.get level)) ++
        ["\x7d"] := rfl

/-- Levels that have the same lines have the same script. -/
theorem script_congr {level level' : Level} {dialect : Dialect}
    (h : ∀ f ∈ dialect.fields, fieldLines level f = fieldLines level' f) :
    level.script dialect = level'.script dialect := by
  rw [script, script, scriptLines, scriptLines, List.flatMap_congr h]

theorem length_script (level : Level) (dialect : Dialect) :
    (level.script dialect).length =
      11 + (dialect.fields.map fun f => extent (linesOf f.key f.kind (f.get level))).sum := by
  have hopen : extent ["return \x7b"] = 9 := rfl
  have hclose : extent ["\x7d"] = 2 := rfl
  rw [script, length_join, scriptLines_eq, ← List.singleton_append, extent_append, extent_append,
    extent_flatMap, hopen, hclose]
  omega

/-! ### Fields that are read back -/

/-- What is left of a level in its script is settled: no name repeats, and no zero has a sign. -/
theorem isSettled_iff (level : Level) (dialect : Dialect) :
    (∀ f ∈ dialect.fields, IsSettled f.kind (f.get level)) ↔
      (level.overrides.map (·.name)).Nodup ∧
        ∀ x ∈ level.writtenNumbers dialect, isNegativeZero x = false := by
  constructor
  · intro h
    refine ⟨(h overridesField (overridesField_mem dialect)).1, fun x hx => ?_⟩
    obtain ⟨f, hf, hxf⟩ := List.mem_flatMap.mp hx
    exact (h f hf).2 x hxf
  · rintro ⟨hnames, hnumbers⟩ f hf
    refine ⟨?_, fun x hx => hnumbers x (List.mem_flatMap.mpr ⟨f, hf, hx⟩)⟩
    rcases kind_or_overrides (mem_fields_of_dialect hf) with rfl | ⟨hkind, -⟩
    · exact hnames
    · rw [namesOf_of_ne hkind]
      exact List.nodup_nil

/-! ### Scripts that are written again -/

section Again

variable {level : Level} {dialect : Dialect} {os : List Override}

theorem script_of_isSettled (h : ∀ f ∈ dialect.fields, IsSettled f.kind (f.get level))
    (hos : os.Perm (level.reread dialect).overrides) :
    ((level.reread dialect).withOverrides os).script dialect = level.script dialect :=
  script_congr fun f hf => linesOf_of_isSettled f.key f.kind (h f hf) (reordered_get hos hf)

/-- Writing a level that has been read back gives the same script only if the level was settled. -/
theorem script_eq_iff (hos : os.Perm (level.reread dialect).overrides) :
    ((level.reread dialect).withOverrides os).script dialect = level.script dialect ↔
      ∀ f ∈ dialect.fields, IsSettled f.kind (f.get level) := by
  refine ⟨fun heq => ?_, fun h => script_of_isSettled h hos⟩
  have hlength := congrArg String.length heq
  rw [length_script, length_script] at hlength
  have hbound : AtMost (dialect.fields.map _).sum (dialect.fields.map _).sum _ :=
    AtMost.sum fun f hf => atMost_extent_linesOf f.key f.kind (reordered_get hos hf)
  exact hbound.2 (by omega)

end Again

/-- The first script that is written of a level that was read back is a fixed point, whatever the
interpreter chooses in either run, and whatever order the overrides come back in.  It is the script that was read if and only if the names of overrides
are distinct and no number is the zero with a minus sign. -/
theorem script_converges (options : SandboxOptions) (level : Level) (dialect : Dialect)
    (choices choices' : Choices) :
    ∃ first, (Level.parse options.unlimited (level.script dialect) choices).result = .ok first ∧
      ∀ os, os.Perm first.overrides →
        ((first.withOverrides os).script dialect = level.script dialect ↔
          (level.overrides.map (·.name)).Nodup ∧
            ∀ x ∈ level.writtenNumbers dialect, isNegativeZero x = false) ∧
        ∃ second, (Level.parse options.unlimited
            ((first.withOverrides os).script dialect) choices').result = .ok second ∧
          ∀ os', os'.Perm second.overrides →
            (second.withOverrides os').script dialect =
              (first.withOverrides os).script dialect := by
  obtain ⟨os₁, hos₁, hparse⟩ := parse_script options level dialect choices
  refine ⟨_, hparse, fun os h => ?_⟩
  have hos : os.Perm (level.reread dialect).overrides := h.trans hos₁
  refine ⟨(script_eq_iff hos).trans (isSettled_iff level dialect), ?_⟩
  obtain ⟨os₂, hos₂, hparse'⟩ :=
    parse_script options ((level.reread dialect).withOverrides os) dialect choices'
  refine ⟨_, hparse', fun os' h' => script_of_isSettled (fun f hf => ?_) (h'.trans hos₂)⟩
  exact isSettled_of_reordered f.kind (reordered_get hos hf)

theorem script_converges_unsettled :
    ∃ first second,
      (Level.parse (SandboxOptions.unlimited {}) (unsettled.script .master)).result = .ok first ∧
      (first.withOverrides first.overrides.reverse).script .master ≠ unsettled.script .master ∧
      (Level.parse (SandboxOptions.unlimited {})
        ((first.withOverrides first.overrides.reverse).script .master)).result = .ok second ∧
      second.script .master = (first.withOverrides first.overrides.reverse).script .master := by
  obtain ⟨first, hfirst, hwritten⟩ := script_converges {} unsettled .master {} {}
  obtain ⟨hiff, second, hsecond, hfixed⟩ := hwritten _ (List.reverse_perm first.overrides)
  refine ⟨first, second, hfirst, fun heq => ?_, hsecond, hfixed _ (List.Perm.refl _)⟩
  have hnames := (hiff.mp heq).1
  revert hnames
  decide

end LuaConfig.Level
