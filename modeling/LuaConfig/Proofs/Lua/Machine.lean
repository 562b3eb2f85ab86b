/-
Steps of the machine, and what is suspended below them.

What stands on the stack below the active function is out of its reach.  A step of the machine keeps
it, or hands it the results of the function, or leaves it because of a fault (`step_above`).

Main statements:
* `step_above` — a step above a suspended call;
* `run_of_reaches`, `ends_of_run`, `run_of_ends` — runs, and the states they go through.
-/
import LuaConfig.Lua.Machine
import Mathlib

namespace LuaConfig.Lua

/-- Does an entry stand for a call?  Only results and faults get past it; jumps do not. -/
def Entry.isCall : Entry → Bool
  | frame .. => true
  | guard .. => true
  | reader .. => true
  | handling .. => true
  | unwinding .. => true
  | scope .. => false
  | closing .. => false

namespace Machine

/-- What is suspended begins with a call, if there is anything. -/
def Rests (stack : List Entry) : Prop := ∀ e ∈ stack.head?, e.isCall = true

theorem rests_nil : Rests [] := by simp [Rests]

theorem rests_cons {e : Entry} {rest : List Entry} (h : e.isCall = true) : Rests (e :: rest) := by
  simpa [Rests] using h

/-- A machine whose stack ends in `below`; have its instructions been spent? -/
structure Keeps (below : List Entry) (spent : Bool) (m : Machine) : Prop where
  stack : below <:+ m.stack
  spent : m.meter.exhausted = spent

/-- What a step above a suspended call leads to. -/
inductive Onward (below : List Entry) (spent : Bool) (p : Progress) : Prop where
  | stays (m : Machine) (s : Step) (h : p = .ok (m, s)) (hm : Keeps below spent m)
  | returns (m : Machine) (results : List Value) (σ : Store) (h : p = resume m results σ below)
      (hm : m.meter.exhausted = spent)
  | fails (m : Machine) (fault : Fault) (σ : Store) (h : p = unwind m fault σ below)
      (hm : m.meter.exhausted = spent)

section Above

variable {m : Machine} {below : List Entry} {spent : Bool} {σ : Store}

theorem Onward.of_keeps {q : Machine × Step} (h : Keeps below spent q.1) :
    Onward below spent (.ok q) :=
  .stays q.1 q.2 rfl h

/-! ### What happens above a suspended call -/

theorem push_keeps (hm : Keeps below spent m) (site : Option Site) (f : Value) (args : List Value)
    (k : List Value → Store → Step) (above : List Entry) :
    Keeps below spent (push m site f args k (above ++ below) σ).1 := by
  unfold push
  split
  · exact hm
  · exact ⟨⟨.frame site σ.slots k :: above, rfl⟩, hm.spent⟩

theorem close_keeps (hm : Keeps below spent m) (site : Option Site) (v : Value)
    (next : Store → Step) (above : List Entry) :
    Keeps below spent (close m site v next (above ++ below) σ).1 :=
  push_keeps hm site _ _ _ above

theorem finishGuard_keeps (hm : m.meter.exhausted = spent) (slots : Array Slot)
    (k : Except Value (List Value) → Store → Step) (outcome : Except Value (List Value))
    (above : List Entry) :
    Keeps below spent (finishGuard m (above ++ below) slots k outcome σ).1 :=
  ⟨⟨above, rfl⟩, hm⟩

/-- A fault passes what stands above the call, unless it is caught or has something to close. -/
theorem unwind_above (fault : Fault) (above : List Entry) (hm : m.meter.exhausted = spent) :
    Onward below spent (unwind m fault σ (above ++ below)) := by
  -- the fault falls through what is suspended above, and is caught there or comes out below
  induction above generalizing m with
  | nil => exact .fails m fault σ rfl hm
  | cons e above ih =>
    rw [List.cons_append]
    cases e with
    | frame site slots k =>
      rw [unwind]
      exact ih hm
    | scope labels =>
      rw [unwind]
      exact ih hm
    | closing site v =>
      rw [unwind]
      exact .of_keeps ⟨⟨.unwinding fault :: above, rfl⟩, hm⟩
    | guard handler slots k =>
      rw [unwind]
      exact .of_keeps (finishGuard_keeps hm slots k _ above)
    | reader slots k =>
      rw [unwind]
      exact .of_keeps ⟨⟨above, rfl⟩, hm⟩
    | handling handler again watched depth slots =>
      rw [unwind]
      exact ih hm
    | unwinding inner =>
      rw [unwind]
      exact ih hm

/-- Results are handed to the innermost call. -/
theorem resume_above (results : List Value) (above : List Entry) (hm : Keeps below spent m) :
    Onward below spent (resume m results σ (above ++ below)) := by
  -- scopes are left behind; every other entry takes up the results
  induction above with
  | nil => exact .returns m results σ rfl hm.spent
  | cons e above ih =>
    rw [List.cons_append]
    cases e with
    | frame site slots k =>
      rw [resume]
      exact .of_keeps ⟨⟨above, rfl⟩, hm.spent⟩
    | scope labels =>
      rw [resume]
      exact ih
    | closing site v =>
      rw [resume]
      exact .of_keeps (close_keeps hm site v _ above)
    | guard handler slots k =>
      rw [resume]
      exact .of_keeps (finishGuard_keeps hm.spent slots k _ above)
    | reader slots k =>
      rw [resume]
      exact .of_keeps ⟨⟨above, rfl⟩, hm.spent⟩
    | handling handler again watched depth slots =>
      rw [resume]
      exact unwind_above _ above hm.spent
    | unwinding fault =>
      rw [resume]
      exact unwind_above fault above hm.spent

/-- An error is handed to a handler on top of everything, or passes as a fault. -/
theorem raise_above (watched : Bool) (v : Value) (hm : Keeps below spent m) :
    Onward below spent (raise m watched v σ) := by
  obtain ⟨above, hstack⟩ := hm.stack
  unfold raise
  split
  · rw [← hstack]
    exact unwind_above _ above hm.spent
  · rw [← hstack]
    exact unwind_above _ above hm.spent
  · next handler again _ =>
    refine .of_keeps ⟨⟨.handling handler again watched m.depth σ.slots :: above, ?_⟩, hm.spent⟩
    rw [← hstack]
    rfl

theorem leave_keeps (hbelow : Rests below) (hm : Keeps below spent m) (k : Store → Step)
    (above : List Entry) : Keeps below spent (leave m k σ (above ++ below)).1 := by
  cases above with
  | nil =>
    cases below with
    | nil => exact hm
    | cons e below =>
      -- a call is not a scope, and is not left
      have hcall : e.isCall = true := hbelow e rfl
      cases e with
      | scope labels => cases hcall
      | closing site v => cases hcall
      | _ => exact hm
  | cons e above =>
    rw [List.cons_append]
    cases e with
    | scope labels => exact ⟨⟨above, rfl⟩, hm.spent⟩
    | closing site v => exact close_keeps hm site v k above
    | _ => exact hm

theorem jump_keeps (hbelow : Rests below) (hm : Keeps below spent m) (label : Label)
    (above : List Entry) : Keeps below spent (jump m label σ (above ++ below)).1 := by
  induction above with
  | nil =>
    cases below with
    | nil => exact hm
    | cons e below =>
      have hcall : e.isCall = true := hbelow e rfl
      cases e with
      | scope labels => cases hcall
      | closing site v => cases hcall
      | _ => exact hm
  | cons e above ih =>
    rw [List.cons_append]
    cases e with
    | scope labels =>
      rw [jump]
      split
      · exact ⟨⟨.scope labels :: above, rfl⟩, hm.spent⟩
      · exact ih
    | closing site v =>
      rw [jump]
      exact close_keeps hm site v _ above
    | _ => exact hm

theorem withoutScopes_above (hbelow : Rests below) (above : List Entry) :
    ∃ above', withoutScopes (above ++ below) = above' ++ below := by
  induction above with
  | nil =>
    cases below with
    | nil => exact ⟨[], rfl⟩
    | cons e below =>
      have hcall : e.isCall = true := hbelow e rfl
      cases e with
      | scope labels => cases hcall
      | _ => exact ⟨[], rfl⟩
  | cons e above ih =>
    cases e with
    | scope labels => exact ih
    | _ => exact ⟨_ :: above, rfl⟩

/-! ### Steps above a suspended call -/

theorem answer_above (limits : Limits) (hbelow : Rests below) (hm : Keeps below spent m)
    (s : Step) : Onward below spent (answer limits m s) := by
  obtain ⟨above, hstack⟩ := hm.stack
  -- each answer works on the top of the stack, so that `below` is touched only by what comes out
  cases s with
  | done results σ =>
    rw [answer, ← hstack]
    exact resume_above results above hm
  | call site f args k σ =>
    rw [answer, ← hstack]
    exact .of_keeps (push_keeps hm site f args k above)
  | tailCall site f args σ =>
    obtain ⟨above', habove'⟩ := withoutScopes_above hbelow above
    simp only [answer, ← hstack, habove']
    split
    · exact .of_keeps ⟨⟨above', rfl⟩, hm.spent⟩
    · exact .of_keeps (push_keeps hm (some site) f args _ above')
  | fail fault σ =>
    cases fault with
    | raised v =>
      rw [answer]
      exact raise_above true v hm
    | outOfMemory =>
      rw [answer, ← hstack]
      exact unwind_above _ above hm.spent
  | enter labels inside σ =>
    refine .of_keeps ⟨⟨.scope labels :: above, ?_⟩, hm.spent⟩
    rw [← hstack]
    rfl
  | enterClosing site v inside σ =>
    refine .of_keeps ⟨⟨.closing site v :: above, ?_⟩, hm.spent⟩
    rw [← hstack]
    rfl
  | leave k σ =>
    rw [answer, ← hstack]
    exact .of_keeps (leave_keeps hbelow hm k above)
  | jump label σ =>
    rw [answer, ← hstack]
    exact .of_keeps (jump_keeps hbelow hm label above)
  | attempt handler f args k σ =>
    rw [answer]
    split
    · exact .of_keeps hm
    · refine .of_keeps ⟨⟨.guard handler σ.slots k :: above, ?_⟩, hm.spent⟩
      rw [← hstack]
      rfl
  | refuseAttempt message σ =>
    rw [answer]
    exact raise_above true _ hm
  | read reader k σ =>
    rw [answer]
    split
    · exact .of_keeps hm
    · refine .of_keeps ⟨⟨.reader σ.slots k :: above, ?_⟩, hm.spent⟩
      rw [← hstack]
      rfl
  | locate level k σ =>
    rw [answer]
    exact .of_keeps hm
  | reserve size k σ =>
    rw [answer]
    exact .of_keeps hm
  | measure k σ =>
    rw [answer]
    exact .of_keeps hm

theorem checkInstructions_stack (limits : Limits) (m : Machine) (n : Nat) :
    (checkInstructions limits m n).1.stack = m.stack := by
  unfold checkInstructions
  split
  · rfl
  · dsimp only
    split
    · rfl
    · split <;> rfl

/-- Instructions that have been spent stay spent. -/
theorem checkInstructions_exhausted (limits : Limits) (n : Nat)
    (hm : m.meter.exhausted = true) :
    (checkInstructions limits m n).1.meter.exhausted = true := by
  unfold checkInstructions
  split
  · exact hm
  · dsimp only
    split
    · exact hm
    · split
      · exact hm
      · rfl

theorem checkInstructions_spends {limits : Limits} {m : Machine} {n : Nat}
    (h : (checkInstructions limits m n).2 ≠ none) :
    (checkInstructions limits m n).1.meter.exhausted = true := by
  unfold checkInstructions at h ⊢
  split at h
  · exact absurd rfl h
  · dsimp only at h ⊢
    split at h
    · exact absurd rfl h
    · next hdue =>
      rw [if_neg hdue]
      split at h
      · exact absurd rfl h
      · next hspent =>
        rw [if_neg hspent]

/-- A step above a suspended call, once the instructions are spent. -/
theorem step_above (limits : Limits) (hbelow : Rests below) (hm : Keeps below true m) (s : Step) :
    Onward below true (step limits m s) := by
  have hkeeps : Keeps below true
      (checkInstructions limits m (checkMemory limits m s).store.spent).1 :=
    ⟨by rw [checkInstructions_stack]; exact hm.stack, checkInstructions_exhausted limits _ hm.spent⟩
  unfold step
  dsimp only
  split
  · next m' h =>
    rw [h] at hkeeps
    exact answer_above limits hbelow hkeeps _
  · next m' text h =>
    rw [h] at hkeeps
    exact raise_above false _ hkeeps

end Above

/-! ### Runs -/

/-- One step leads from a state to the next. -/
def Leads (limits : Limits) (a b : Machine × Step) : Prop := step limits a.1 a.2 = .ok b

/-- Steps lead from a state to another one. -/
abbrev Reaches (limits : Limits) : Machine × Step → Machine × Step → Prop :=
  Relation.ReflTransGen (Leads limits)

/-- Steps lead from a state to another one, and there is at least one of them. -/
abbrev Follows (limits : Limits) : Machine × Step → Machine × Step → Prop :=
  Relation.TransGen (Leads limits)

theorem checkMemory_eq {limits : Limits} (hmemory : limits.memory = none) (m : Machine)
    (s : Step) : checkMemory limits m s = s := by
  rw [checkMemory, hmemory]

/-- As long as neither the instructions nor the memory are looked at, a step is an answer. -/
theorem step_eq_answer {limits : Limits} {m : Machine} {s : Step}
    (hmemory : ∀ limit ∈ limits.memory, s.store.allocated ≤ limit)
    (h : s.store.spent < m.meter.next) : step limits m s = answer limits m s := by
  have hchecked : checkInstructions limits m s.store.spent = (m, none) := by
    unfold checkInstructions
    split
    · rfl
    · exact if_pos h
  have hroom : checkMemory limits m s = s := by
    unfold checkMemory
    split
    · rfl
    · next limit hlimit => exact if_pos (hmemory limit hlimit)
  simp only [step, hroom, hchecked]

theorem step_of_lt {limits : Limits} {m : Machine} {s : Step} (hmemory : limits.memory = none)
    (h : s.store.spent < m.meter.next) : step limits m s = answer limits m s :=
  step_eq_answer (by simp [hmemory]) h

theorem leads_of_lt {limits : Limits} {m : Machine} {s : Step} {b : Machine × Step}
    (hmemory : limits.memory = none) (h : s.store.spent < m.meter.next)
    (hanswer : answer limits m s = .ok b) : Leads limits (m, s) b :=
  (step_of_lt hmemory h).trans hanswer

/-- A call of a script's function. -/
theorem invoke_script {site : Option Site} {n : Nat} {code : Function} {upvalues : Array Nat}
    {args : List Value} {σ : Store} (hcode : σ.functions[n]? = some (.script code upvalues)) :
    invoke site (.func n) args σ = code.run upvalues args { σ with slots := #[] } := by
  show invokeFrom site (99 + 1) (.func n) args _ = _
  rw [invokeFrom]
  simp only [hcode]

/-- A run that ends does so from every state it goes through. -/
theorem run_of_reaches {limits : Limits} {fuel : Nat} {a b : Machine × Step} {final : Final}
    (h : Reaches limits a b) (hrun : run limits fuel a.1 a.2 = some final) :
    ∃ fuel', run limits fuel' b.1 b.2 = some final := by
  induction h using Relation.ReflTransGen.head_induction_on generalizing fuel with
  | refl => exact ⟨fuel, hrun⟩
  | head hstep _ ih =>
    cases fuel with
    | zero => cases hrun
    | succ fuel =>
      rw [run, hstep] at hrun
      exact ih hrun

/-- A run that ends does so on a step from a state it goes through. -/
theorem ends_of_run {limits : Limits} {fuel : Nat} {a : Machine × Step} {final : Final}
    (hrun : run limits fuel a.1 a.2 = some final) :
    ∃ b, Reaches limits a b ∧ step limits b.1 b.2 = .error final := by
  induction fuel generalizing a with
  | zero => cases hrun
  | succ fuel ih =>
    rw [run] at hrun
    split at hrun
    · next m s hstep =>
      obtain ⟨b, hreach, hend⟩ := ih (a := (m, s)) hrun
      exact ⟨b, .head hstep hreach, hend⟩
    · next final' hstep =>
      cases hrun
      exact ⟨a, .refl, hstep⟩

/-- A run ends in one way only. -/
theorem run_unique {limits : Limits} {fuel fuel' : Nat} {a : Machine × Step}
    {final final' : Final} (h : run limits fuel a.1 a.2 = some final)
    (h' : run limits fuel' a.1 a.2 = some final') : final = final' := by
  induction fuel generalizing fuel' a with
  | zero => cases h
  | succ fuel ih =>
    cases fuel' with
    | zero => cases h'
    | succ fuel' =>
      rw [run] at h h'
      split at h
      · next m s hstep =>
        rw [hstep] at h'
        exact ih (a := (m, s)) h h'
      · next last hstep =>
        rw [hstep] at h'
        cases h
        cases h'
        rfl

/-- A run that has ended takes no further steps. -/
theorem run_add {limits : Limits} {fuel : Nat} {a : Machine × Step} {final : Final}
    (h : run limits fuel a.1 a.2 = some final) (more : Nat) :
    run limits (fuel + more) a.1 a.2 = some final := by
  induction fuel generalizing a with
  | zero => cases h
  | succ fuel ih =>
    rw [Nat.add_right_comm, run]
    rw [run] at h
    split at h
    · next m s hstep => exact ih (a := (m, s)) h
    · exact h

/-- Does the run from a state end after `fuel` steps at most, and do the states that it goes through
have a property? -/
def throughout (limits : Limits) (p : Machine × Step → Bool) : (fuel : Nat) → Machine × Step → Bool
  | 0, _ => false
  | fuel + 1, a => p a &&
    match step limits a.1 a.2 with
    | .ok b => throughout limits p fuel b
    | .error _ => true

theorem of_throughout {limits : Limits} {p : Machine × Step → Bool} {fuel : Nat}
    {a b : Machine × Step} (h : throughout limits p fuel a = true) (hb : Reaches limits a b) :
    p b = true := by
  induction hb using Relation.ReflTransGen.head_induction_on generalizing fuel with
  | refl =>
    cases fuel with
    | zero => cases h
    | succ fuel => exact (Bool.and_eq_true_iff.mp h).1
  | head hstep _ ih =>
    cases fuel with
    | zero => cases h
    | succ fuel =>
      rw [throughout, hstep] at h
      exact ih (Bool.and_eq_true_iff.mp h).2

/-- A state from which a run ends is gone through by a run that ends. -/
theorem run_of_ends {limits : Limits} {a b : Machine × Step} {final : Final}
    (h : Reaches limits a b) (hend : step limits b.1 b.2 = .error final) :
    ∃ fuel, run limits fuel a.1 a.2 = some final := by
  induction h using Relation.ReflTransGen.head_induction_on with
  | refl =>
    refine ⟨1, ?_⟩
    rw [run, hend]
  | head hstep _ ih =>
    obtain ⟨fuel, hfuel⟩ := ih
    refine ⟨fuel + 1, ?_⟩
    rw [run, hstep]
    exact hfuel

end Machine

end LuaConfig.Lua
