/-
What a limit on instructions does to guarded calls.

Where instructions are limited, the functions that catch errors stand inside functions of the host.
A guarded call is one level of calls more then, it is the host that refuses one, and more memory is
in use.  As long as the limit is kept to, nothing else tells whether there is one.

Main statements:
* `run_frees` — a run that keeps to a limit, and asks for nothing that tells whether there is one,
  is the same without it;
* `siteAt_of_le_one`, `siteAt_of_unguarded` — calls whose sites do not tell.
-/
import LuaConfig.Proofs.Lua.Limits

namespace LuaConfig.Lua

/-- Neither of the limits is on memory, and the second has none on instructions either. -/
structure Limits.Frees (limits limits' : Limits) : Prop where
  memory : limits.memory = none
  memory' : limits'.memory = none
  instructions' : limits'.instructions = none

/-- Is an entry that of a guarded call? -/
def Entry.isGuard : Entry → Bool
  | guard .. => true
  | _ => false

/-- The machine that looks at its instructions after `n` of them. -/
def Machine.withNext (n : Nat) (m : Machine) : Machine :=
  { m with meter := { m.meter with next := n } }

namespace Machine

/-- What a step leads to, if the instructions are looked at after `n` of them. -/
def Progress.withNext (n : Nat) (p : Progress) : Progress :=
  p.map fun q => (q.1.withNext n, q.2)

/-- Is a value a function, a script's or one of the host's? -/
def isFunction : Value → Bool
  | .func _ => true
  | .builtin _ => true
  | _ => false

/-- A step has the same answer under two limits: it asks for no site on which they differ and not
for the memory that is in use, refuses no guarded call, and has errors handed to functions only. -/
def Alike (limits limits' : Limits) (a : Machine × Step) : Prop :=
  match a.2 with
  | .locate level _ _ => siteAt limits' a.1.stack level = siteAt limits a.1.stack level
  | .refuseAttempt _ _ => False
  | .attempt handler _ _ _ _ => ∀ f ∈ handler, isFunction f = true
  | .measure _ _ => False
  | _ => True

instance (limits limits' : Limits) (a : Machine × Step) : Decidable (Alike limits limits' a) :=
  match a with
  | (_, .locate ..) => inferInstanceAs (Decidable (_ = _))
  | (_, .attempt handler ..) => inferInstanceAs (Decidable (∀ f ∈ handler, isFunction f = true))
  | (_, .refuseAttempt ..) | (_, .measure ..) => .isFalse id
  | (_, .done ..) | (_, .call ..) | (_, .tailCall ..) | (_, .fail ..) | (_, .enter ..)
  | (_, .enterClosing ..) | (_, .leave ..) | (_, .jump ..) | (_, .read ..) | (_, .reserve ..) =>
    .isTrue trivial

variable {limits limits' : Limits} {m : Machine} {a : Machine × Step} {final : Final} {n : Nat}

/-! ### When the instructions are looked at -/

section Next

variable (m) (n) (σ : Store)

theorem push_withNext (site : Option Site) (f : Value) (args : List Value)
    (k : List Value → Store → Step) (stack : List Entry) :
    push (m.withNext n) site f args k stack σ =
      ((push m site f args k stack σ).1.withNext n, (push m site f args k stack σ).2) := by
  unfold push
  show (if maxDepth ≤ m.depth then _ else _) = _
  split <;> rfl

theorem unwind_withNext (fault : Fault) (stack : List Entry) :
    unwind (m.withNext n) fault σ stack = (unwind m fault σ stack).withNext n := by
  induction stack generalizing m with
  | nil => rfl
  | cons e rest ih =>
    cases e with
    | frame site slots k => exact ih { m with depth := m.depth - 1 }
    | scope labels => exact ih m
    | handling handler again watched depth slots => exact ih { m with depth := depth }
    | unwinding inner => exact ih m
    | _ => rfl

theorem raise_withNext (watched : Bool) (v : Value) :
    raise (m.withNext n) watched v σ = (raise m watched v σ).withNext n := by
  unfold raise
  have hhandler : handlerFor v (m.withNext n).stack = handlerFor v m.stack := rfl
  rw [hhandler]
  rcases handlerFor v m.stack with _ | ⟨handler, _ | again⟩
  · exact unwind_withNext m n σ (.raised v) m.stack
  · exact unwind_withNext m n σ (.raised (.ofString handler.overflow)) m.stack
  · rfl

theorem resume_withNext (results : List Value) (stack : List Entry) :
    resume (m.withNext n) results σ stack = (resume m results σ stack).withNext n := by
  induction stack with
  | nil => rfl
  | cons e rest ih =>
    cases e with
    | scope labels => exact ih
    | closing site v => exact congrArg Except.ok (push_withNext m n σ site _ _ _ rest)
    | handling handler again watched depth slots =>
      exact unwind_withNext { m with depth := depth } n σ _ rest
    | unwinding fault => exact unwind_withNext m n σ fault rest
    | _ => rfl

theorem leave_withNext (k : Store → Step) (stack : List Entry) :
    leave (m.withNext n) k σ stack = ((leave m k σ stack).1.withNext n, (leave m k σ stack).2) := by
  cases stack with
  | nil => rfl
  | cons e rest =>
    cases e with
    | closing site v => exact push_withNext m n σ site _ _ _ rest
    | _ => rfl

theorem jump_withNext (label : Label) (stack : List Entry) :
    jump (m.withNext n) label σ stack =
      ((jump m label σ stack).1.withNext n, (jump m label σ stack).2) := by
  induction stack with
  | nil => rfl
  | cons e rest ih =>
    cases e with
    | scope labels =>
      simp only [jump]
      split
      · rfl
      · exact ih
    | closing site v => exact push_withNext m n σ site _ _ _ rest
    | _ => rfl

/-- Answers do not depend on when the instructions are looked at. -/
theorem answer_withNext (s : Step) :
    answer limits (m.withNext n) s = (answer limits m s).withNext n := by
  cases s with
  | done results σ => exact resume_withNext m n σ results m.stack
  | call site f args k σ => exact congrArg Except.ok (push_withNext m n σ site f args k m.stack)
  | tailCall site f args σ =>
    simp only [answer]
    split
    · rfl
    · exact congrArg Except.ok (push_withNext m n σ site f args _ (withoutScopes m.stack))
  | fail fault σ =>
    cases fault with
    | raised v => exact raise_withNext m n σ true v
    | outOfMemory => exact unwind_withNext m n σ .outOfMemory m.stack
  | leave k σ => exact congrArg Except.ok (leave_withNext m n σ k m.stack)
  | jump label σ => exact congrArg Except.ok (jump_withNext m n σ label m.stack)
  | attempt handler f args k σ =>
    simp only [answer]
    show (if maxDepth ≤ m.depth then _ else _) = _
    split <;> rfl
  | refuseAttempt message σ => exact raise_withNext m n σ true _
  | read reader k σ =>
    simp only [answer]
    show (if maxDepth ≤ m.depth then _ else _) = _
    split <;> rfl
  | _ => rfl

end Next

/-! ### Runs without a limit -/

theorem answer_alike (h : limits.Frees limits') (halike : Alike limits limits' a) :
    answer limits' a.1 a.2 = answer limits a.1 a.2 := by
  obtain ⟨m, s⟩ := a
  cases s with
  | fail fault σ => cases fault <;> rfl
  | refuseAttempt message σ => exact halike.elim
  | locate level k σ =>
    have hsite : siteAt limits' m.stack level = siteAt limits m.stack level := halike
    rw [answer, answer, hsite]
  | reserve size k σ => rw [answer, answer, reserve, reserve, h.memory, h.memory']
  | measure k σ => exact halike.elim
  | _ => rfl

/-- A step without limits is an answer. -/
theorem step_unlimited (hmemory : limits.memory = none) (hinstructions : limits.instructions = none)
    (m : Machine) (s : Step) : step limits m s = answer limits m s := by
  have hchecked : checkInstructions limits m s.store.spent = (m, none) := by
    rw [checkInstructions, hinstructions]
  simp only [step, checkMemory_eq hmemory, hchecked]

/-- A step within the limit is the same without it. -/
theorem step_frees (h : limits.Frees limits') (hwithin : ¬ Spends limits a)
    (halike : Alike limits limits' a) :
    step limits' (a.1.withNext n) a.2 = (step limits a.1 a.2).withNext n := by
  -- within the limit a step is its answer, with the meter set to look again later
  obtain ⟨next, hstep⟩ := step_within hwithin
  rw [step_unlimited h.memory' h.instructions', hstep, checkMemory_eq h.memory, answer_withNext,
    answer_alike h halike]
  exact (answer_withNext a.1 n a.2).symm.trans (answer_withNext (a.1.withNext next) n a.2)

/-- A run that keeps to the limit, and whose steps are alike without it, is the same without it. -/
theorem run_frees (h : limits.Frees limits') {fuel : Nat}
    (hrun : run limits fuel a.1 a.2 = some final)
    (hwithin : ∀ b, Reaches limits a b → ¬ Spends limits b)
    (halike : ∀ b, Reaches limits a b → Alike limits limits' b) :
    run limits' fuel (a.1.withNext n) a.2 = some final := by
  -- without a limit the meter is never set, so that `n` stays while that of `a` changes
  induction fuel generalizing a with
  | zero => cases hrun
  | succ fuel ih =>
    rw [run, step_frees h (hwithin a .refl) (halike a .refl)]
    rw [run] at hrun
    split at hrun
    · next m s hstep =>
      rw [hstep]
      exact ih (a := (m, s)) hrun (fun b hb => hwithin b (.head hstep hb))
        fun b hb => halike b (.head hstep hb)
    · next last hstep =>
      rw [hstep]
      exact hrun

/-! ### Sites that do not tell -/

/-- The site of the innermost call is the same, whatever the limits. -/
theorem siteAt_of_le_one (limits limits' : Limits) (stack : List Entry) {level : Nat}
    (hlevel : level ≤ 1) : siteAt limits' stack level = siteAt limits stack level := by
  induction stack with
  | nil => rfl
  | cons e rest ih =>
    cases e with
    | scope labels => exact ih
    | closing site v => exact ih
    | guard handler slots k =>
      have hguard (limits : Limits) : level ≤ guardLevels limits := by
        unfold guardLevels
        split <;> omega
      rw [siteAt, siteAt, if_pos (hguard limits), if_pos (hguard limits')]
    | _ => rw [siteAt, siteAt, if_pos hlevel, if_pos hlevel]

/-- Where no call is guarded all sites are the same, whatever the limits. -/
theorem siteAt_of_unguarded (limits limits' : Limits) {stack : List Entry}
    (hstack : ∀ e ∈ stack, e.isGuard = false) (level : Nat) :
    siteAt limits' stack level = siteAt limits stack level := by
  induction stack generalizing level with
  | nil => rfl
  | cons e rest ih =>
    obtain ⟨he, hrest⟩ := List.forall_mem_cons.mp hstack
    cases e with
    | guard handler slots k => cases he
    | scope labels => exact ih hrest level
    | closing site v => exact ih hrest level
    | _ => rw [siteAt, siteAt, ih hrest]

end Machine

end LuaConfig.Lua
