/-
Runs that do not end.

A run does not end if each of its states, from some state on, leads to another one of a kind
(`diverges_of_progress`).  A handler can see to that: where it is handed the error that the
instructions are spent, its own are not looked at, and nothing stops a loop of its own
(`diverges_of_handsOver`).

Main statement:
* `counted_endless` — a script that goes on for ever in its handler once it has counted to a
  thousand.
-/
import LuaConfig.Proofs.Sandbox.Budget

namespace LuaConfig

open Lua Lua.Machine

namespace Lua.Machine

variable {limits : Limits} {a b : Machine × Step} {m : Machine} {s : Step}

/-- The run from a state does not end. -/
def Diverges (limits : Limits) (a : Machine × Step) : Prop :=
  ∀ fuel, run limits fuel a.1 a.2 = none

theorem Diverges.of_leads (h : Leads limits a b) (hb : Diverges limits b) : Diverges limits a := by
  intro fuel
  cases fuel with
  | zero => rfl
  | succ fuel =>
    rw [run, h]
    exact hb fuel

theorem Diverges.of_reaches (h : Reaches limits a b) (hb : Diverges limits b) :
    Diverges limits a := by
  induction h using Relation.ReflTransGen.head_induction_on with
  | refl => exact hb
  | head hstep _ ih => exact .of_leads hstep ih

/-- A run does not end whose states lead from one of a kind to another. -/
theorem diverges_of_progress {P : Machine × Step → Prop}
    (hP : ∀ a, P a → ∃ b, Leads limits a b ∧ P b) (ha : P a) : Diverges limits a := by
  intro fuel
  induction fuel generalizing a with
  | zero => rfl
  | succ fuel ih =>
    obtain ⟨b, hstep, hb⟩ := hP a ha
    rw [run, hstep]
    exact ih hb

/-- The state after some steps, if the run has not ended. -/
def advance (limits : Limits) : Nat → Machine × Step → Option (Machine × Step)
  | 0, a => some a
  | n + 1, a =>
    match step limits a.1 a.2 with
    | .ok b => advance limits n b
    | .error _ => none

theorem reaches_of_advance {n : Nat} (h : advance limits n a = some b) : Reaches limits a b := by
  induction n generalizing a with
  | zero =>
    cases h
    exact .refl
  | succ n ih =>
    rw [advance] at h
    split at h
    · next c hstep => exact .head hstep (ih h)
    · cases h

/-- Where a handler is at work whose instructions are not looked at, none are. -/
theorem checkInstructions_unwatched (limits : Limits) {m : Machine}
    (hunwatched : isUnwatched m.stack = true) (n : Nat) :
    ∃ meter, checkInstructions limits m n = ({ m with meter := meter }, none) := by
  unfold checkInstructions
  split
  · exact ⟨m.meter, rfl⟩
  · dsimp only
    split
    · exact ⟨m.meter, rfl⟩
    · rw [hunwatched, Bool.or_true, if_pos rfl]
      exact ⟨_, rfl⟩

/-- Where the instructions are found to be spent, an error is raised. -/
theorem step_of_spent {text : String} (hmemory : limits.memory = none)
    (h : (checkInstructions limits m s.store.spent).2 = some text) :
    ∃ meter, step limits m s = raise { m with meter := meter } false (.failure text) s.store := by
  have hmachine : ∃ meter,
      (checkInstructions limits m s.store.spent).1 = { m with meter := meter } := by
    unfold checkInstructions
    split
    · exact ⟨_, rfl⟩
    · dsimp only
      split
      · exact ⟨_, rfl⟩
      · split <;> exact ⟨_, rfl⟩
  obtain ⟨meter, hmeter⟩ := hmachine
  refine ⟨meter, ?_⟩
  simp only [step, checkMemory, hmemory]
  rw [show checkInstructions limits m s.store.spent = ({ m with meter := meter }, some text) from
    Prod.ext hmeter h]

end Lua.Machine

namespace Sandbox

variable {limits : Limits} {m : Machine} {s : Step} {a : Machine × Step}

/-! ### Loops in handlers -/

/-- Is a function a loop that does nothing? -/
def isLoop : Function → Bool
  | .mk _ _ _ _ _ (.mk false [.while (.const (.bool true)) (.mk false [])]) => true
  | _ => false

theorem run_isLoop {code : Function} (h : isLoop code = true) (upvalues : Array Nat)
    (args : List Value) (σ : Store) :
    ∃ σ', code.run upvalues args σ = .enter [(.again, round)] round σ' := by
  unfold isLoop at h
  split at h
  · rw [Function.run]
    simp only [Block.exec, Stmt.execList, Stmt.exec, Expr.eval, Value.isTrue, if_true]
    exact ⟨_, rfl⟩
  · cases h

/-- A loop that does nothing turns where its instructions are not looked at. -/
structure Turns (a : Machine × Step) : Prop where
  jumps : ∃ σ, a.2 = .jump .again σ
  loops : ∃ below, a.1.stack = .scope [(.again, round)] :: below
  unwatched : isUnwatched a.1.stack = true

theorem turns_leads (hmemory : limits.memory = none) (a : Machine × Step) (ha : Turns a) :
    ∃ b, Leads limits a b ∧ Turns b := by
  obtain ⟨m, s⟩ := a
  obtain ⟨⟨σ, rfl⟩, ⟨below, hstack⟩, hunwatched⟩ := ha
  obtain ⟨meter, hchecked⟩ := checkInstructions_unwatched limits hunwatched σ.spent
  refine ⟨({ m with meter := meter }, .jump .again (σ.charge 1)), ?_,
    ⟨_, rfl⟩, ⟨below, hstack⟩, hunwatched⟩
  dsimp only at hstack
  simp only [Leads, step, checkMemory, hmemory, Step.store, hchecked, answer, hstack, jump,
    List.lookup, beq_self_eq_true]
  rfl

/-- Is a step about to hand the error that the instructions are spent to a handler that is a loop? -/
def handsOver (limits : Limits) (a : Machine × Step) : Bool :=
  match (checkInstructions limits a.1 a.2.store.spent).2 with
  | none => false
  | some text =>
    match handlerFor (.failure text) a.1.stack with
    | some (.script (.func n), _ + 1) =>
      match a.2.store.functions[n]? with
      | some (.script code _) => isLoop code
      | _ => false
    | _ => false

theorem spends_of_handsOver (hmemory : limits.memory = none) (h : handsOver limits a = true) :
    Spends limits a := by
  unfold handsOver at h
  split at h
  · cases h
  next text hspent =>
    rw [Spends, checkMemory_eq hmemory, hspent]
    exact Option.some_ne_none text

/-- The loop of a handler never ends that is handed the error that the instructions are spent. -/
theorem diverges_of_handsOver (hmemory : limits.memory = none) (h : handsOver limits a = true) :
    Diverges limits a := by
  obtain ⟨m, s⟩ := a
  unfold handsOver at h
  dsimp only at h
  split at h
  · cases h
  next text hspent =>
    split at h
    next n again hhandler =>
      split at h
      next code upvalues hcode =>
        obtain ⟨meter, hstep⟩ := step_of_spent hmemory hspent
        obtain ⟨σ, hloop⟩ := run_isLoop h upvalues [.failure text] { s.store with slots := #[] }
        let handling : Machine :=
          { m with
            stack := .handling (.script (.func n)) again false m.depth s.store.slots :: m.stack
            depth := m.depth - handlerDepth
            meter := meter }
        -- the error is raised, the handler is called, and enters its loop
        have hraise : Leads limits (m, s) (handling, .enter [(.again, round)] round σ) := by
          rw [Leads, hstep, raise, hhandler]
          dsimp only
          rw [Handler.function, invoke_script hcode, hloop]
        obtain ⟨meter', hchecked⟩ :=
          checkInstructions_unwatched limits (m := handling) rfl σ.spent
        have henter : Leads limits (handling, .enter [(.again, round)] round σ)
            ({ handling with
                stack := .scope [(.again, round)] :: handling.stack, meter := meter' },
              .jump .again (σ.charge 1)) := by
          simp only [Leads, step, checkMemory, hmemory, Step.store, hchecked, answer]
          rfl
        exact .of_leads hraise (.of_leads henter (diverges_of_progress (turns_leads hmemory)
          ⟨⟨_, rfl⟩, ⟨_, rfl⟩, rfl⟩))
      · cases h
    · cases h

/-! ### A script that counts -/

/-- A script that counts beyond a thousand, with a handler that goes on for ever. -/
def counted : String :=
  "xpcall(function() for i = 1, 300 do local a, b, c = i, i, i end end, " ++
    "function() while true do end end) configuration_options = \x7b\x7d"

/-- The script comes to hand the error that its instructions are spent to its handler. -/
theorem counted_reaches : ∃ start a, start? tight .globals "modinfo.lua" counted {} = some start ∧
    Reaches (Sandbox.limits tight) start a ∧ handsOver (Sandbox.limits tight) a = true := by
  have hspent : ((start? tight .globals "modinfo.lua" counted {}).bind
      (advance (Sandbox.limits tight) 250)).any (handsOver (Sandbox.limits tight)) = true := by
    decide +kernel
  obtain ⟨a, ha, hover⟩ := (Option.any_eq_true _ _).mp hspent
  obtain ⟨start, hstart, hadvance⟩ := Option.bind_eq_some_iff.mp ha
  exact ⟨start, a, hstart, reaches_of_advance hadvance, hover⟩

/-- Its handler goes on for ever, and so does the script. -/
theorem counted_endless (fuel : Nat) :
    runFor fuel tight .globals "modinfo.lua" counted {} = none := by
  obtain ⟨start, a, hstart, ha, hover⟩ := counted_reaches
  exact runFor_of_endless hstart
    (Diverges.of_reaches ha (diverges_of_handsOver rfl hover) fuel)

end Sandbox

end LuaConfig
