/-
Integers in scripts.

A script carries the integer of a level as the text of the nearest double.  The text is read as the
integer that it shows, and cut to 64 bits where that is too large (`rereadWhole_eq`).  So an integer
comes back as itself exactly if it is the one that is shown, or one of the two ends of the range
(`parse_script_whole`): up to `2 ^ 53` always, and beyond that for few.
-/
import LuaConfig.Proofs.Script.Reread

namespace LuaConfig

open Lua Decimal

namespace Script

theorem rereadWhole_minValue : rereadWhole Int64.minValue = Int64.minValue := by
  decide

theorem rereadWhole_maxValue : rereadWhole Int64.maxValue = Int64.maxValue := by
  decide

/-- The integers that come back as themselves. -/
theorem rereadWhole_eq_self_iff (n : Int64) :
    rereadWhole n = n ↔ shown n.toInt = n.toInt ∨ n = Int64.minValue ∨ n = Int64.maxValue := by
  constructor
  · intro h
    rw [rereadWhole_eq] at h
    rcases lt_or_ge (shown n.toInt) (-2 ^ 63) with hlow | hlow
    · exact Or.inr (Or.inl (h.symm.trans (Value.clip_of_ge hlow.le)))
    rcases lt_or_ge (shown n.toInt) (2 ^ 63) with hhigh | hhigh
    · refine Or.inl ?_
      rw [← Value.clip_of_range hlow hhigh, h]
    · exact Or.inr (Or.inr (h.symm.trans (Value.clip_of_le hhigh)))
  · rintro (h | rfl | rfl)
    · rw [rereadWhole_eq, h]
      exact (Value.eq_clip_of_range rfl).symm
    · exact rereadWhole_minValue
    · exact rereadWhole_maxValue

/-- The text of an integer in a script. -/
theorem number_ofInt (n : Int64) : number (ofInt n.toInt) = toString (shown n.toInt) := by
  rw [← plain_ofInt (toInt_natAbs_le n)]
  by_cases h0 : n.toInt = 0
  · rw [h0]
    decide
  · obtain ⟨m, q, h⟩ := exists_shows h0 (toInt_natAbs_le n)
    simp only [number, h.ofFloat_eq]

end Script

namespace Level

open Script

theorem numRandomSetPieces_reread (level : Level) (dialect : Dialect) :
    (level.reread dialect).numRandomSetPieces = rereadWhole level.numRandomSetPieces := by
  have hmem : numRandomSetPiecesField ∈ dialect.fields := by
    cases dialect <;> simp [Dialect.fields, Dialect.sharedFields]
  exact get_reread hmem level

/-- The script of every level is read back.  Its integer is written as the text of the nearest
double and read as the integer that this text shows, cut to 64 bits.  So it comes back as itself if
and only if it is the one that is shown, or one of the ends of the range; up to `2 ^ 53` it is the
one that is shown. -/
theorem parse_script_whole (options : SandboxOptions) (level : Level) (dialect : Dialect)
    (choices : Choices) :
    ∃ level', (Level.parse options.unlimited (level.script dialect) choices).result = .ok level' ∧
      number (ofInt level.numRandomSetPieces.toInt) =
        toString (shown level.numRandomSetPieces.toInt) ∧
      level'.numRandomSetPieces = Value.clip (shown level.numRandomSetPieces.toInt) ∧
      (level'.numRandomSetPieces = level.numRandomSetPieces ↔
        shown level.numRandomSetPieces.toInt = level.numRandomSetPieces.toInt ∨
          level.numRandomSetPieces = Int64.minValue ∨
          level.numRandomSetPieces = Int64.maxValue) ∧
      (level.numRandomSetPieces.toInt.natAbs ≤ 2 ^ 53 →
        shown level.numRandomSetPieces.toInt = level.numRandomSetPieces.toInt) := by
  obtain ⟨os, -, hparse⟩ := parse_script options level dialect choices
  have hback : ((level.reread dialect).withOverrides os).numRandomSetPieces =
      rereadWhole level.numRandomSetPieces := numRandomSetPieces_reread level dialect
  refine ⟨_, hparse, number_ofInt _, ?_, ?_, shown_of_exact⟩
  · rw [hback, rereadWhole_eq]
  · rw [hback, rereadWhole_eq_self_iff]

/-- The least positive integer that is no double comes back as its neighbour. -/
theorem parse_script_whole_odd :
    ¬ ∃ level', (Level.parse (SandboxOptions.unlimited {})
        (Level.script { numRandomSetPieces := 9007199254740993 } .master)).result = .ok level' ∧
      level'.numRandomSetPieces = 9007199254740993 := by
  rintro ⟨level', hparse, hkept⟩
  have hneighbour : rereadWhole 9007199254740993 = 9007199254740992 := by decide +kernel
  obtain ⟨os, -, hparse'⟩ :=
    parse_script {} { numRandomSetPieces := 9007199254740993 } .master {}
  obtain rfl := Except.ok.inj (hparse'.symm.trans hparse)
  have hback := numRandomSetPieces_reread { numRandomSetPieces := 9007199254740993 } .master
  rw [hneighbour] at hback
  exact absurd (hback.symm.trans hkept) (by decide)

end Level

end LuaConfig
