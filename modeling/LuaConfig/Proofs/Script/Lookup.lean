/-
Overrides that are looked up by name.

A record answers a name with the first override of that name, a table of the interpreter with the
last value it was given.  A level that is read back from its script answers every name with the last
value of the name, whatever order its overrides come back in, and so as the level itself did if and
only if the first value of the name and its last are the same (`lookup_script`).
-/
import LuaConfig.Proofs.Script.Order
import LuaConfig.Proofs.Script.RoundTrip

namespace LuaConfig

namespace Script

theorem SameScalar.symm {v w : Scalar} (h : SameScalar v w) : SameScalar w v := by
  match v, w, h with
  | .bool _, .bool _, h => exact Eq.symm h
  | .number _, .number _, h => exact SameNumber.symm h
  | .string _, .string _, h => exact Eq.symm h

theorem SameScalar.trans {u v w : Scalar} (h : SameScalar u v) (h' : SameScalar v w) :
    SameScalar u w := by
  match u, v, w, h, h' with
  | .bool _, .bool _, .bool _, h, h' => exact Eq.trans h' h
  | .number _, .number _, .number _, h, h' => exact SameNumber.trans h h'
  | .string _, .string _, .string _, h, h' => exact Eq.trans h' h

/-- Reading a value again does not change what it is the same as. -/
theorem sameScalar_reread_iff (v w : Scalar) : SameScalar v (rereadScalar w) ↔ SameScalar v w :=
  ⟨fun h => h.trans (sameScalar_reread w).symm, fun h => h.trans (sameScalar_reread w)⟩

theorem rel_reread_iff (v w : Option Scalar) :
    Option.Rel SameScalar v (w.map rereadScalar) ↔ Option.Rel SameScalar v w := by
  cases v <;> cases w <;> simp [sameScalar_reread_iff]

theorem rel_sameScalar_refl (v : Option Scalar) : Option.Rel SameScalar v v := by
  rw [← rel_reread_iff]
  cases v with
  | none => exact .none
  | some v => exact .some (sameScalar_reread v)

/-- A name that stands no more than once has one value, the first and the last. -/
theorem lastValue_of_unique {os : List Override} {name : String}
    (h : os.countP (·.name = name) ≤ 1) :
    lastValue? os name = (os.find? (·.name = name)).map (·.value) := by
  have hreverse : ∀ l : List Override, l.length ≤ 1 → l.reverse = l := by
    rintro (_ | ⟨o, _ | ⟨o', rest⟩⟩) hlength
    · rfl
    · rfl
    · simp at hlength
  rw [List.countP_eq_length_filter] at h
  rw [lastValue?, ← List.head?_filter, ← List.head?_filter, List.filter_reverse, hreverse _ h]

end Script

namespace Level

open Script Lua

/-- A level that was read back answers a name with the last value that the name had, whatever order
the overrides come back in. -/
theorem override?_reread (level : Level) (dialect : Dialect) {os : List Override}
    (hos : os.Perm (level.reread dialect).overrides) (name : String) :
    ((level.reread dialect).withOverrides os).override? name =
      (lastValue? level.overrides name).map rereadScalar := by
  have hoverrides : (level.reread dialect).overrides = rereadOverrides level.overrides :=
    get_reread (overridesField_mem dialect) level
  rw [hoverrides] at hos
  have hnodup := nodup_rereadOverrides level.overrides
  rw [← lastValue_rereadOverrides, lastValue?, find_reverse hnodup, ← find_perm hos hnodup]
  rfl

/-- A level that is read back from its script answers each name with the last value of that name;
so it answers as the level does if the first value is the same as the last, and not otherwise. -/
theorem lookup_script (options : SandboxOptions) (level : Level) (dialect : Dialect)
    (choices : Choices) :
    ∃ level', (Level.parse options.unlimited (level.script dialect) choices).result = .ok level' ∧
      ∀ os, os.Perm level'.overrides → ∀ name,
        Option.Rel SameScalar (lastValue? level.overrides name)
            ((level'.withOverrides os).override? name) ∧
          (Option.Rel SameScalar (level.override? name)
              ((level'.withOverrides os).override? name) ↔
            Option.Rel SameScalar (level.override? name) (lastValue? level.overrides name)) ∧
          (level.overrides.countP (·.name = name) ≤ 1 →
            Option.Rel SameScalar (level.override? name)
              ((level'.withOverrides os).override? name)) := by
  obtain ⟨os', hos', hparse⟩ := parse_script options level dialect choices
  refine ⟨_, hparse, fun os hos name => ?_⟩
  have hlookup : (((level.reread dialect).withOverrides os').withOverrides os).override? name =
      (lastValue? level.overrides name).map rereadScalar :=
    override?_reread level dialect (hos.trans hos') name
  rw [hlookup]
  refine ⟨(rel_reread_iff _ _).mpr (rel_sameScalar_refl _), rel_reread_iff _ _, fun h => ?_⟩
  rw [rel_reread_iff, lastValue_of_unique h]
  exact rel_sameScalar_refl _

theorem lookup_script_reversed :
    unsettled.overrides.countP (·.name = "two words") ≤ 1 ∧
      ∃ level', (Level.parse (SandboxOptions.unlimited {}) (unsettled.script .cave)).result =
          .ok level' ∧
        Option.Rel SameScalar (unsettled.override? "two words")
          ((level'.withOverrides level'.overrides.reverse).override? "two words") := by
  have hunique : unsettled.overrides.countP (·.name = "two words") ≤ 1 := by decide
  obtain ⟨level', hparse, hlookup⟩ := lookup_script {} unsettled .cave {}
  obtain ⟨-, -, hsame⟩ := hlookup _ (List.reverse_perm level'.overrides) "two words"
  exact ⟨hunique, level', hparse, hsame hunique⟩

/-- Of a name that repeats a level answers the first value, and the last once it was read back. -/
theorem lookup_script_unsettled :
    unsettled.override? "day" = some (.string "longday") ∧
      ∃ level', (Level.parse (SandboxOptions.unlimited {}) (unsettled.script .master)).result =
          .ok level' ∧
        level'.override? "day" = some (.string "onlynight") ∧
        ¬ Option.Rel SameScalar (unsettled.override? "day") (level'.override? "day") := by
  have hfirst : unsettled.override? "day" = some (.string "longday") := by decide
  obtain ⟨os, hos, hparse⟩ := parse_script {} unsettled .master {}
  have hlast : ((unsettled.reread .master).withOverrides os).override? "day" =
      some (.string "onlynight") := override?_reread unsettled .master hos "day"
  refine ⟨hfirst, _, hparse, hlast, fun hsame => ?_⟩
  rw [hfirst, hlast] at hsame
  cases hsame with
  | some h =>
    have htext : "onlynight" = "longday" := h
    revert htext
    decide

end Level

end LuaConfig
