/-
The round trip of levels through their scripts.

A level that is read back from its script agrees with the level (`parse_script_agrees`): all texts,
switches and lists are the same, numbers are the same up to the sign of a zero, and every name of an
override has its last value.
-/
import LuaConfig.Proofs.Script.Overrides
import LuaConfig.Proofs.Script.Reread

namespace LuaConfig

open Lua Decimal

namespace Script

/-! ### Agreement -/

/-- Scalars of one kind, with the same text, switch or number. -/
def SameScalar : Scalar → Scalar → Prop
  | .bool b, .bool b' => b' = b
  | .number x, .number x' => SameNumber x x'
  | .string s, .string s' => s' = s
  | _, _ => False

/-- The value of the last override of a name. -/
def lastValue? (overrides : List Override) (name : String) : Option Scalar :=
  (overrides.reverse.find? (·.name = name)).map (·.value)

/-- Every name of an override stands once, with the last value that it had. -/
structure SameOverrides (os os' : List Override) : Prop where
  nodup : (os'.map (·.name)).Nodup
  value : ∀ name, Option.Rel SameScalar (lastValue? os name) (lastValue? os' name)

/-- A value of a field, and the one that is read back. -/
def Agrees : (kind : Kind) → kind.Value → kind.Value → Prop
  | .text, s, s' => s' = s
  | .flag, b, b' => b' = b
  | .number, x, x' => SameNumber x x'
  | .whole, n, n' => n' = n
  | .scalar, v, v' => SameScalar v v'
  | .texts, items, items' => items' = items
  | .numbers, items, items' => List.Forall₂ SameNumber items items'
  | .overrides, items, items' => SameOverrides items items'
  | .choice, v, v' => v' = v
  | .limit, v, v' => v' = v
  | .items, v, v' => v' = v
  | .options, v, v' => v' = v

theorem sameScalar_reread (v : Scalar) : SameScalar v (rereadScalar v) := by
  cases v with
  | bool b => exact rfl
  | number x => exact sameNumber_normal x
  | string s => exact rfl

/-- Sorting does not change which override of a name is the last. -/
theorem lastValue_sortedOverrides (os : List Override) (name : String) :
    lastValue? (sortedOverrides os) name = lastValue? os name := by
  rw [lastValue?, lastValue?, ← List.head?_filter, ← List.head?_filter, List.filter_reverse,
    List.filter_reverse, filter_sortedOverrides]

theorem lastValue_rereadOverrides (os : List Override) (name : String) :
    lastValue? (rereadOverrides os) name = (lastValue? os name).map rereadScalar := by
  rw [← lastValue_sortedOverrides os, lastValue?, find_reverse (nodup_rereadOverrides os),
    rereadOverrides, List.find?_map, Option.map_map]
  show ((upsertAll Override.name _ []).find? (·.name = name)).map _ = _
  rw [find_upsertAll, List.find?_nil, Option.or_none, lastValue?, Option.map_map]
  rfl

theorem sameOverrides_reread {os os' : List Override} (h : os'.Perm (rereadOverrides os)) :
    SameOverrides os os' := by
  have hnodup : (os'.map (·.name)).Nodup :=
    (h.map (·.name)).nodup_iff.mpr (nodup_rereadOverrides os)
  refine ⟨hnodup, fun name => ?_⟩
  -- no name repeats, so that the order does not matter
  have hlast : lastValue? os' name = lastValue? (rereadOverrides os) name := by
    rw [lastValue?, lastValue?, find_reverse hnodup, find_perm h (nodup_rereadOverrides os),
      find_reverse (nodup_rereadOverrides os)]
  rw [hlast, lastValue_rereadOverrides]
  cases lastValue? os name with
  | none => exact .none
  | some v => exact .some (sameScalar_reread v)

/-- Up to `2 ^ 53` integers are read back as they are. -/
def IsExact : (kind : Kind) → kind.Value → Prop
  | .whole, n => n.toInt.natAbs ≤ 2 ^ 53
  | _, _ => True

theorem agrees_reread {kind : Kind} {v v' : kind.Value} (h : IsExact kind v)
    (hv : Reordered kind (reread kind v) v') : Agrees kind v v' := by
  by_cases hkind : kind = .overrides
  · subst hkind
    exact sameOverrides_reread hv
  obtain rfl := eq_of_reordered hkind hv
  cases kind with
  | number => exact sameNumber_normal v
  | whole => exact rereadWhole_of_exact h
  | scalar => exact sameScalar_reread v
  | numbers =>
    exact List.forall₂_map_right_iff.mpr (List.forall₂_same.mpr fun x _ => sameNumber_normal x)
  | overrides => exact absurd rfl hkind
  | _ => exact rfl

end Script

namespace Level

open Script

theorem isExact_get {level : Level} (h : level.numRandomSetPieces.toInt.natAbs ≤ 2 ^ 53) :
    ∀ f ∈ fields, IsExact f.kind (f.get level) := by
  simp only [fields, List.forall_mem_cons]
  exact ⟨trivial, trivial, trivial, trivial, trivial, trivial, trivial, trivial, trivial, h,
    trivial, trivial, trivial, trivial, trivial, trivial, trivial, trivial, trivial, trivial,
    trivial, trivial, trivial, by simp⟩

/-- Reading the script of a level succeeds, whatever the interpreter chooses, and the level that is
read agrees with it in every field that the dialect carries. -/
theorem parse_script_agrees (options : SandboxOptions) (level : Level) (dialect : Dialect)
    (choices : Choices) (h : level.numRandomSetPieces.toInt.natAbs ≤ 2 ^ 53) :
    ∃ level', (Level.parse options.unlimited (level.script dialect) choices).result = .ok level' ∧
      (∀ f ∈ fields, dialect = .cave ∨ f.key ≠ backgroundNodeRangeField.key →
        Agrees f.kind (f.get level) (f.get level')) ∧
      (dialect = .master → level'.backgroundNodeRange = []) := by
  obtain ⟨os, hos, hparse⟩ := parse_script options level dialect choices
  refine ⟨_, hparse, fun f hf hcarried => ?_, ?_⟩
  · rcases mem_or_master hf dialect with hmem | ⟨rfl, rfl⟩
    · exact agrees_reread (isExact_get h f hf) (reordered_get hos hmem)
    · simp at hcarried
  · rintro rfl
    rfl

/-- A level with a name that repeats and a zero that has a sign. -/
def unsettled : Level where
  version := Float.ofBits 0x8000000000000000
  numRandomSetPieces := 9007199254740992
  overrides :=
    [⟨"day", .string "longday"⟩, ⟨"two words", .bool false⟩, ⟨"day", .string "onlynight"⟩]

theorem parse_script_agrees_unsettled :
    unsettled.numRandomSetPieces.toInt.natAbs ≤ 2 ^ 53 ∧
      ∃ level', (Level.parse (SandboxOptions.unlimited {}) (unsettled.script .cave)).result =
          .ok level' ∧
        level'.numRandomSetPieces = 9007199254740992 ∧
        SameOverrides unsettled.overrides level'.overrides := by
  have hsmall : unsettled.numRandomSetPieces.toInt.natAbs ≤ 2 ^ 53 := by decide
  obtain ⟨level', hparse, hagrees, -⟩ := parse_script_agrees {} unsettled .cave {} hsmall
  refine ⟨hsmall, level', hparse, ?_, ?_⟩
  · exact hagrees numRandomSetPiecesField (by simp [fields]) (Or.inl rfl)
  · exact hagrees overridesField (by simp [fields]) (Or.inl rfl)

end Level

end LuaConfig
