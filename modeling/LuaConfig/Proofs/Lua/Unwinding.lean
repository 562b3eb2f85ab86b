/-
How a run is stopped whose instructions are spent.

Once the instructions are spent, every look at them raises an error.  Until the error has reached
the innermost reader of a text that is being loaded, or the end of the run, nothing else happens: it
falls through what is suspended, and only handlers of errors, and functions that close values, run
in between.  A guarded call that a script has made ends in an error of its own.

Main statements:
* `guarded_call_ends` — a guarded call of a script does not return;
* `spent_descends`, `falling_descends`, `cleaning_descends` — a step on the way down;
* `descent`, `descent_data` — all states on the way down, and what changes there;
* `spent_lands` — where nothing runs in between, the way down is finite;
* `stopped_of_spends` — all of this together, from the step at which the instructions are spent.
-/
import LuaConfig.Proofs.Lua.Machine

namespace LuaConfig.Lua

/-- What a script can see of a store, its local variables aside. -/
def Store.data (σ : Store) : Store := { σ with slots := #[], spent := 0, allocated := 0 }

/-- Is a value an error of the host's own? -/
def Value.isFailure : Value → Bool
  | failure _ => true
  | _ => false

namespace Entry

/-- Does an entry stand for the reader of a text? -/
def isReader : Entry → Bool
  | reader .. => true
  | _ => false

/-- Is something done on behalf of an error: is it handled, or is a value closed? -/
def isCleaning : Entry → Bool
  | handling .. => true
  | unwinding .. => true
  | _ => false

/-- Does a fault pass an entry without anything being run? -/
def isQuiet : Entry → Bool
  | closing .. => false
  | handling .. => false
  | guard (some _) _ _ => false
  | _ => true

end Entry

namespace Machine

/-- What is suspended above the innermost reader. -/
def aboveReader (stack : List Entry) : List Entry := stack.takeWhile (!·.isReader)

/-- The innermost reader, and what is suspended below it. -/
def fromReader (stack : List Entry) : List Entry := stack.dropWhile (!·.isReader)

/-- The instructions are looked at, and they are spent. -/
def Spends (limits : Limits) (a : Machine × Step) : Prop :=
  (checkInstructions limits a.1 (checkMemory limits a.1 a.2).store.spent).2 ≠ none

/-- An error falls through the upper part of the stack. -/
structure Falling (above below : List Entry) (a : Machine × Step) : Prop where
  stack : ∃ left, left <:+ above ∧ a.1.stack = left ++ below
  fails : ∃ fault σ, a.2 = .fail fault σ
  spent : a.1.meter.exhausted = true

/-- An error is being handled, or a value is closed, on top of the upper part of the stack. -/
structure Cleaning (above below : List Entry) (a : Machine × Step) : Prop where
  stack : ∃ left e, left <:+ above ∧ e.isCleaning = true ∧ e :: (left ++ below) <:+ a.1.stack
  spent : a.1.meter.exhausted = true

/-- An error of a reader has been caught: the function that called the reader returns nil and the
error, on a store with the given data. -/
def Caught (below : List Entry) (data : Store) (a : Machine × Step) : Prop :=
  ∃ slots k rest v σ, below = .reader slots k :: rest ∧ a.1.stack = rest ∧
    a.2 = .done [.nil, v] σ ∧ σ.data = data

/-- What a step on the way down leads to; the data are those of the store before it. -/
inductive Descent (above below : List Entry) (data : Store) (p : Progress) : Prop where
  | falls (a : Machine × Step) (h : p = .ok a) (ha : Falling above below a)
      (hdata : a.2.store.data = data)
  | cleans (a : Machine × Step) (h : p = .ok a) (ha : Cleaning above below a)
  | caught (a : Machine × Step) (h : p = .ok a) (ha : Caught below data a)
  | ends (fault : Fault) (σ : Store) (h : p = .error ⟨.error fault, σ, true⟩) (hbelow : below = [])
      (hdata : σ.data = data)

/-! ### Guarded calls of scripts -/

section Guarded

variable {limits : Limits} {handler : Option Value} {slots : Array Slot}
  {k : Except Value (List Value) → Store → Step} {below : List Entry}

/-- A guarded call of a script ends in an error. -/
theorem finishGuard_call {m : Machine} {σ : Store} {outcome : Except Value (List Value)}
    (hm : m.meter.exhausted = true) :
    finishGuard m below slots k outcome σ =
      ({ m with stack := below, depth := m.depth - 1 },
        .fail (.raised (.failure guardText)) { σ with slots := slots }) := by
  simp only [finishGuard, hm, if_true]

/-- A guarded call of a script is under way, or has ended in an error. -/
theorem guarded_call_step {a : Machine × Step}
    (ha : Keeps (.guard handler slots k :: below) true a.1) {b : Machine × Step}
    (hstep : Leads limits a b) :
    Keeps (.guard handler slots k :: below) true b.1 ∨
      b.1.stack = below ∧ ∃ σ, b.2 = .fail (.raised (.failure guardText)) σ := by
  have hguard := step_above limits (rests_cons rfl) ha a.2
  rw [Leads] at hstep
  rw [hstep] at hguard
  cases hguard with
  | stays m s h hm =>
    cases h
    exact .inl hm
  | returns m results σ h hm =>
    rw [resume, finishGuard_call hm] at h
    cases h
    exact .inr ⟨rfl, _, rfl⟩
  | fails m fault σ h hm =>
    rw [unwind, finishGuard_call hm] at h
    cases h
    exact .inr ⟨rfl, _, rfl⟩

/-- Once the instructions are spent, a guarded call that a script has made does not return: as long
as the run goes on it is under way, or it has ended in an error. -/
theorem guarded_call_ends {a b : Machine × Step}
    (ha : Keeps (.guard handler slots k :: below) true a.1) (h : Reaches limits a b) :
    Keeps (.guard handler slots k :: below) true b.1 ∨
      ∃ c, Follows limits a c ∧ Reaches limits c b ∧ c.1.stack = below ∧
        ∃ σ, c.2 = .fail (.raised (.failure guardText)) σ := by
  induction h with
  | refl => exact .inl ha
  | tail hreach hstep ih =>
    obtain hkeeps | ⟨c, hac, hcb, hc⟩ := ih
    · obtain hkeeps' | ⟨hstack, hfail⟩ := guarded_call_step hkeeps hstep
      · exact .inl hkeeps'
      · exact .inr ⟨_, .tail' hreach hstep, .refl, hstack, hfail⟩
    · exact .inr ⟨c, hac, hcb.tail hstep, hc⟩

end Guarded

/-! ### One step down -/

section Down

variable {limits : Limits} {above below : List Entry}

/-- The upper part of a stack has no reader, and the lower part begins with one, if with
anything. -/
structure Splits (above below : List Entry) : Prop where
  above : ∀ e ∈ above, e.isReader = false
  below : ∀ e ∈ below.head?, e.isReader = true

theorem splits_stack (stack : List Entry) : Splits (aboveReader stack) (fromReader stack) := by
  refine ⟨fun e he => ?_, fun e he => ?_⟩
  · have := List.all_eq_true.mp List.all_takeWhile e he
    simpa using this
  · have := List.head?_dropWhile_not (fun e : Entry => !e.isReader) stack
    rw [fromReader] at he
    rw [Option.mem_def.mp he] at this
    simpa using this

theorem aboveReader_append (stack : List Entry) : aboveReader stack ++ fromReader stack = stack :=
  List.takeWhile_append_dropWhile

/-- A fault falls through what is left of the upper part. -/
theorem unwind_descends (hsplit : Splits above below) {m : Machine}
    (hm : m.meter.exhausted = true) (fault : Fault) (σ : Store) {left : List Entry}
    (hleft : left <:+ above) : Descent above below σ.data (unwind m fault σ (left ++ below)) := by
  -- the fault falls until something is to be run, or until `below` is reached
  induction left generalizing m with
  | nil =>
    rw [List.nil_append]
    cases below with
    | nil =>
      refine .ends fault σ ?_ rfl rfl
      rw [unwind, hm]
    | cons e below =>
      have hreader : e.isReader = true := hsplit.below e rfl
      cases e with
      | reader slots k =>
        exact .caught _ rfl ⟨slots, k, below, _, { σ with slots := slots }, rfl, rfl, rfl, rfl⟩
      | _ => cases hreader
  | cons e left ih =>
    rw [List.cons_append]
    have hleft' : left <:+ above := (List.suffix_cons e left).trans hleft
    cases e with
    | frame site slots k =>
      rw [unwind]
      exact ih hm hleft'
    | scope labels =>
      rw [unwind]
      exact ih hm hleft'
    | closing site v =>
      rw [unwind]
      exact .cleans _ rfl ⟨⟨left, .unwinding fault, hleft', rfl, List.suffix_refl _⟩, hm⟩
    | guard handler slots k =>
      rw [unwind, finishGuard_call hm]
      exact .falls _ rfl ⟨⟨left, hleft', rfl⟩, ⟨_, _, rfl⟩, hm⟩ rfl
    | reader slots k =>
      have hreader := hsplit.above _ (hleft.subset List.mem_cons_self)
      cases hreader
    | handling handler again watched depth slots =>
      rw [unwind]
      exact ih hm hleft'
    | unwinding inner =>
      rw [unwind]
      exact ih hm hleft'

/-- An error is handed to a handler, or falls. -/
theorem raise_descends (hsplit : Splits above below) {m : Machine}
    (hm : m.meter.exhausted = true) (watched : Bool) (v : Value) (σ : Store) {left : List Entry}
    (hleft : left <:+ above) (hstack : m.stack = left ++ below) :
    Descent above below σ.data (raise m watched v σ) := by
  unfold raise
  split
  · rw [hstack]
    exact unwind_descends hsplit hm _ σ hleft
  · rw [hstack]
    exact unwind_descends hsplit hm _ σ hleft
  · next handler again _ =>
    refine .cleans _ rfl ⟨⟨left, .handling handler again watched m.depth σ.slots, hleft, rfl, ?_⟩, hm⟩
    simp only [hstack, List.suffix_refl]

theorem checkMemory_fail (limits : Limits) (m : Machine) (fault : Fault) (σ : Store) :
    ∃ fault' σ', checkMemory limits m (.fail fault σ) = .fail fault' σ' ∧ σ'.data = σ.data ∧
      (fault' = fault ∨ fault' = .outOfMemory) := by
  unfold checkMemory
  split
  · exact ⟨fault, σ, rfl, rfl, .inl rfl⟩
  · split
    · exact ⟨fault, σ, rfl, rfl, .inl rfl⟩
    · dsimp only
      split
      · exact ⟨fault, _, rfl, rfl, .inl rfl⟩
      · exact ⟨.outOfMemory, _, rfl, rfl, .inr rfl⟩

theorem checkMemory_data (m : Machine) (s : Step) :
    (checkMemory limits m s).store.data = s.store.data := by
  unfold checkMemory
  split
  · rfl
  · split
    · rfl
    · dsimp only
      split
      · cases s <;> rfl
      · cases s <;> rfl

/-- The error by which a run is stopped once its instructions are spent. -/
theorem step_of_spends {a : Machine × Step} (ha : Spends limits a) :
    ∃ m text σ, step limits a.1 a.2 = raise m false (.failure text) σ ∧
      m.stack = a.1.stack ∧ m.meter.exhausted = true ∧ σ.data = a.2.store.data := by
  rw [Spends] at ha
  have hstack := checkInstructions_stack limits a.1 (checkMemory limits a.1 a.2).store.spent
  have hspent := checkInstructions_spends ha
  unfold step
  dsimp only
  split
  · next m h =>
    rw [h] at ha
    exact absurd rfl ha
  · next m text h =>
    rw [h] at hstack hspent
    exact ⟨m, text, _, rfl, hstack, hspent, checkMemory_data ..⟩

/-- The step at which the instructions turn out to be spent. -/
theorem spent_descends {a : Machine × Step} (ha : Spends limits a) :
    Descent (aboveReader a.1.stack) (fromReader a.1.stack) a.2.store.data
      (step limits a.1 a.2) := by
  obtain ⟨m, text, σ, hstep, hstack, hspent, hdata⟩ := step_of_spends ha
  rw [hstep, ← hdata]
  refine raise_descends (splits_stack _) hspent false _ σ (List.suffix_refl _) ?_
  rw [hstack, aboveReader_append]

/-- On a step that begins with an error the error is raised anew, or that by which a run is stopped,
or memory has run out. -/
theorem step_of_fails (limits : Limits) {m : Machine} (hm : m.meter.exhausted = true)
    (fault : Fault) (σ : Store) :
    ∃ m' σ', m'.stack = m.stack ∧ m'.meter.exhausted = true ∧ σ'.data = σ.data ∧
      ((∃ watched v, step limits m (.fail fault σ) = raise m' watched v σ' ∧
          (fault = .raised v ∨ v.isFailure = true)) ∨
        step limits m (.fail fault σ) = unwind m' .outOfMemory σ' m'.stack) := by
  obtain ⟨fault', σ', hmemory, hdata, hfault⟩ := checkMemory_fail limits m fault σ
  have hstack := checkInstructions_stack limits m (Step.fail fault' σ').store.spent
  have hspent := checkInstructions_exhausted limits (Step.fail fault' σ').store.spent hm
  unfold step
  rw [hmemory]
  dsimp only
  split
  · next m' h =>
    rw [h] at hstack hspent
    refine ⟨m', σ', hstack, hspent, hdata, ?_⟩
    cases fault' with
    | raised v =>
      obtain rfl | hother := hfault
      · exact .inl ⟨true, v, rfl, .inl rfl⟩
      · cases hother
    | outOfMemory => exact .inr rfl
  · next m' text h =>
    rw [h] at hstack hspent
    exact ⟨m', σ', hstack, hspent, hdata, .inl ⟨false, _, rfl, .inr rfl⟩⟩

/-- A step on which an error falls. -/
theorem falling_descends (limits : Limits) (hsplit : Splits above below) {a : Machine × Step}
    (ha : Falling above below a) :
    Descent above below a.2.store.data (step limits a.1 a.2) := by
  obtain ⟨m, s⟩ := a
  obtain ⟨left, hleft, hstack⟩ := ha.stack
  obtain ⟨fault, σ, rfl⟩ := ha.fails
  obtain ⟨m', σ', hstack', hspent, hdata, ⟨watched, v, hstep, -⟩ | hstep⟩ :=
    step_of_fails limits ha.spent fault σ
  · have hdescent := raise_descends hsplit hspent watched v σ' hleft (hstack'.trans hstack)
    rw [← hstep, hdata] at hdescent
    exact hdescent
  · have hdescent := unwind_descends hsplit hspent .outOfMemory σ' hleft
    rw [hstack'.trans hstack] at hstep
    rw [← hstep, hdata] at hdescent
    exact hdescent

/-- A step on which an error is handled, or a value is closed. -/
theorem cleaning_descends (limits : Limits) (hsplit : Splits above below) {a : Machine × Step}
    (ha : Cleaning above below a) :
    ∃ data, Descent above below data (step limits a.1 a.2) := by
  obtain ⟨left, e, hleft, he, hstack⟩ := ha.stack
  have hcall : e.isCall = true := by
    cases e with
    | handling => rfl
    | unwinding => rfl
    | _ => cases he
  have habove := step_above limits (rests_cons hcall) ⟨hstack, ha.spent⟩ a.2
  -- what was run for the error goes on, or ends in one of two ways and the error falls on
  cases habove with
  | stays m s h hm =>
    exact ⟨a.2.store.data, .cleans _ h ⟨⟨left, e, hleft, he, hm.stack⟩, hm.spent⟩⟩
  | returns m results σ h hm =>
    refine ⟨σ.data, ?_⟩
    rw [h]
    cases e with
    | handling handler again watched depth slots =>
      rw [resume]
      exact unwind_descends hsplit (m := { m with depth := depth }) hm _ σ hleft
    | unwinding fault =>
      rw [resume]
      exact unwind_descends hsplit hm fault σ hleft
    | _ => cases he
  | fails m fault σ h hm =>
    refine ⟨σ.data, ?_⟩
    rw [h]
    cases e with
    | handling handler again watched depth slots =>
      rw [unwind]
      exact unwind_descends hsplit (m := { m with depth := depth }) hm fault σ hleft
    | unwinding inner =>
      rw [unwind]
      exact unwind_descends hsplit hm fault σ hleft
    | _ => cases he

end Down

/-! ### The way down -/

section Way

variable {limits : Limits} {above below : List Entry} {a b : Machine × Step}

theorem Descent.next {data : Store} {p : Progress} (h : Descent above below data p)
    (hp : p = .ok b) :
    (Falling above below b ∧ b.2.store.data = data) ∨ Cleaning above below b ∨
      Caught below data b := by
  cases h with
  | falls a h ha hdata =>
    rw [hp] at h
    cases h
    exact .inl ⟨ha, hdata⟩
  | cleans a h ha =>
    rw [hp] at h
    cases h
    exact .inr (.inl ha)
  | caught a h ha =>
    rw [hp] at h
    cases h
    exact .inr (.inr ha)
  | ends fault σ h hbelow hdata =>
    rw [hp] at h
    cases h

/-- From the look at the instructions on, a state is on the way down, or a reader has caught the
error before. -/
theorem descent (ha : Spends limits a) (h : Follows limits a b) :
    Falling (aboveReader a.1.stack) (fromReader a.1.stack) b ∨
      Cleaning (aboveReader a.1.stack) (fromReader a.1.stack) b ∨
      ∃ c data, Follows limits a c ∧ Reaches limits c b ∧ Caught (fromReader a.1.stack) data c := by
  have hsplit := splits_stack a.1.stack
  -- once a reader has caught the error, nothing more is said of the states
  induction h with
  | single hstep =>
    obtain ⟨hfalls, -⟩ | hcleans | hcaught := (spent_descends ha).next hstep
    · exact .inl hfalls
    · exact .inr (.inl hcleans)
    · exact .inr (.inr ⟨_, _, .single hstep, .refl, hcaught⟩)
  | tail hreach hstep ih =>
    have hfollows := Relation.TransGen.tail hreach hstep
    obtain hfalling | hcleaning | ⟨c, data, hac, hcb, hcaught⟩ := ih
    · obtain ⟨hfalls, -⟩ | hcleans | hcaught := (falling_descends limits hsplit hfalling).next hstep
      · exact .inl hfalls
      · exact .inr (.inl hcleans)
      · exact .inr (.inr ⟨_, _, hfollows, .refl, hcaught⟩)
    · obtain ⟨data, hdescent⟩ := cleaning_descends limits hsplit hcleaning
      obtain ⟨hfalls, -⟩ | hcleans | hcaught := hdescent.next hstep
      · exact .inl hfalls
      · exact .inr (.inl hcleans)
      · exact .inr (.inr ⟨_, _, hfollows, .refl, hcaught⟩)
    · exact .inr (.inr ⟨c, data, hac, hcb.tail hstep, hcaught⟩)

/-- As long as nothing is handled or closed, nothing that a script can see changes on the way
down. -/
theorem descent_data (ha : Spends limits a) (hb : b = a ∨ Falling (aboveReader a.1.stack)
    (fromReader a.1.stack) b) {c : Machine × Step} (hstep : Leads limits b c) :
    c.2.store.data = b.2.store.data ∨
      Cleaning (aboveReader a.1.stack) (fromReader a.1.stack) c ∨
      Caught (fromReader a.1.stack) b.2.store.data c := by
  have hdescent : Descent (aboveReader a.1.stack) (fromReader a.1.stack) b.2.store.data
      (step limits b.1 b.2) := by
    obtain rfl | hfalling := hb
    · exact spent_descends ha
    · exact falling_descends limits (splits_stack _) hfalling
  obtain ⟨-, hdata⟩ | hcleans | hcaught := hdescent.next hstep
  · exact .inl hdata
  · exact .inr (.inl hcleans)
  · exact .inr (.inr hcaught)

/-! ### Spent instructions -/

theorem keeps_nil {m : Machine} (hm : m.meter.exhausted = true) : Keeps [] true m :=
  ⟨List.nil_suffix, hm⟩

theorem exhausted_of_onward {spent : Bool} (h : Onward [] spent (.ok b)) :
    b.1.meter.exhausted = spent := by
  cases h with
  | stays m s h hm =>
    cases h
    exact hm.spent
  | returns m results σ h hm => cases h
  | fails m fault σ h hm => cases h

theorem exhausted_of_onward_end {spent : Bool} {final : Final}
    (h : Onward [] spent (.error final)) : final.exhausted = spent := by
  cases h with
  | stays m s h hm => cases h
  | returns m results σ h hm =>
    cases h
    exact hm
  | fails m fault σ h hm =>
    cases h
    exact hm

/-- Instructions that are spent are so in all states that follow. -/
theorem exhausted_of_follows (ha : Spends limits a) (h : Follows limits a b) :
    b.1.meter.exhausted = true := by
  induction h with
  | single hstep =>
    obtain ⟨m, text, σ, hraise, -, hspent, -⟩ := step_of_spends ha
    have honward := raise_above (σ := σ) false (.failure text) (keeps_nil hspent)
    rw [← hraise, hstep] at honward
    exact exhausted_of_onward honward
  | @tail c d _ hstep ih =>
    have honward := step_above limits rests_nil (keeps_nil ih) c.2
    rw [hstep] at honward
    exact exhausted_of_onward honward

/-- A run whose instructions are spent ends as such. -/
theorem final_exhausted (ha : Spends limits a) (h : Reaches limits a b) {final : Final}
    (hend : step limits b.1 b.2 = .error final) : final.exhausted = true := by
  obtain rfl | hfollows := Relation.reflTransGen_iff_eq_or_transGen.mp h
  · obtain ⟨m, text, σ, hraise, -, hspent, -⟩ := step_of_spends ha
    have honward := raise_above (σ := σ) false (.failure text) (keeps_nil hspent)
    rw [← hraise, hend] at honward
    exact exhausted_of_onward_end honward
  · have honward := step_above limits rests_nil (keeps_nil (exhausted_of_follows ha hfollows)) b.2
    rw [hend] at honward
    exact exhausted_of_onward_end honward

theorem Descent.final {data : Store} {final : Final}
    (h : Descent above below data (.error final)) : ∃ fault, final.outcome = .error fault := by
  cases h with
  | falls a h ha hdata => cases h
  | cleans a h ha => cases h
  | caught a h ha => cases h
  | ends fault σ h hbelow hdata =>
    cases h
    exact ⟨fault, rfl⟩

/-- Where no text is being loaded, a run whose instructions are spent ends in an error. -/
theorem final_fails (ha : Spends limits a) (hreader : fromReader a.1.stack = [])
    (h : Reaches limits a b) {final : Final} (hend : step limits b.1 b.2 = .error final) :
    ∃ fault, final.outcome = .error fault := by
  have hsplit := splits_stack a.1.stack
  obtain rfl | hfollows := Relation.reflTransGen_iff_eq_or_transGen.mp h
  · have hdescent := spent_descends ha
    rw [hend] at hdescent
    exact hdescent.final
  · obtain hfalling | hcleaning | ⟨c, data, -, -, hcaught⟩ := descent ha hfollows
    · have hdescent := falling_descends limits hsplit hfalling
      rw [hend] at hdescent
      exact hdescent.final
    · obtain ⟨data, hdescent⟩ := cleaning_descends limits hsplit hcleaning
      rw [hend] at hdescent
      exact hdescent.final
    · obtain ⟨slots, k, rest, v, σ, hbelow, -⟩ := hcaught
      rw [hreader] at hbelow
      cases hbelow

end Way

/-! ### Ways down on which nothing is run -/

/-- What leads to the place where an error is caught, or to the end of the run. -/
inductive Lands (limits : Limits) (below : List Entry) (data : Store) : Progress → Prop where
  | caught (a : Machine × Step) (h : Caught below data a) : Lands limits below data (.ok a)
  | ends (fault : Fault) (σ : Store) (hbelow : below = []) (hdata : σ.data = data) :
    Lands limits below data (.error ⟨.error fault, σ, true⟩)
  | further (a : Machine × Step) (h : Lands limits below data (step limits a.1 a.2)) :
    Lands limits below data (.ok a)

section Quiet

variable {limits : Limits} {left below : List Entry}

theorem handlerFor_quiet {v : Value} (hquiet : ∀ e ∈ left, e.isQuiet = true)
    (hhandler : handlerFor v below = none) : handlerFor v (left ++ below) = none := by
  induction left with
  | nil => exact hhandler
  | cons e left ih =>
    have he : e.isQuiet = true := hquiet e List.mem_cons_self
    have hleft := ih fun e' he' => hquiet e' (List.mem_cons_of_mem _ he')
    rw [List.cons_append]
    cases e with
    | guard handler slots k =>
      cases handler with
      | none => rfl
      | some v => cases he
    | handling handler again watched depth slots => cases he
    | _ => exact hleft

theorem raise_unhandled {m : Machine} {watched : Bool} {v : Value} {σ : Store}
    (h : handlerFor v m.stack = none) :
    raise m watched v σ = unwind m (.raised v) σ m.stack := by
  rw [raise, h]

/-- The errors by which a run is stopped are handed to no handler. -/
def Unhandled (stack : List Entry) : Prop :=
  ∀ v : Value, v.isFailure = true → handlerFor v stack = none

theorem unhandled_nil : Unhandled [] := fun v hv => by
  cases v with
  | failure text => rfl
  | _ => cases hv

/-- An error of the host's own that is raised again falls on, where nothing handles it. -/
theorem failure_lands (hhandler : Unhandled (left ++ below))
    (hfalls : ∀ {m : Machine}, m.meter.exhausted = true → ∀ fault σ,
      Lands limits below σ.data (unwind m fault σ (left ++ below)))
    {m : Machine} (hm : m.meter.exhausted = true) (hstack : m.stack = left ++ below) {v : Value}
    (hv : v.isFailure = true) (σ : Store) :
    Lands limits below σ.data (step limits m (.fail (.raised v) σ)) := by
  obtain ⟨m', σ', hstack', hspent, hdata, ⟨watched, w, hstep, hw⟩ | hstep⟩ :=
    step_of_fails limits hm (.raised v) σ
  · have hfailure : w.isFailure = true := by
      obtain hsame | hfailure := hw
      · cases hsame
        exact hv
      · exact hfailure
    have hunhandled : handlerFor w m'.stack = none := by
      rw [hstack', hstack]
      exact hhandler w hfailure
    have hlands := hfalls hspent (.raised w) σ'
    rw [hdata] at hlands
    rw [hstep, raise_unhandled hunhandled, hstack', hstack]
    exact hlands
  · have hlands := hfalls hspent .outOfMemory σ'
    rw [hdata] at hlands
    rw [hstep, hstack', hstack]
    exact hlands

theorem unwind_lands (limits : Limits) (hsplit : Splits left below) (hquiet : ∀ e ∈ left, e.isQuiet = true)
    (hhandler : Unhandled below) {m : Machine} (hm : m.meter.exhausted = true)
    (fault : Fault) (σ : Store) : Lands limits below σ.data (unwind m fault σ (left ++ below)) := by
  -- a guarded call on the way raises an error of its own, which falls on from there
  induction left generalizing m fault σ with
  | nil =>
    rw [List.nil_append]
    cases below with
    | nil =>
      rw [unwind, hm]
      exact .ends fault σ rfl rfl
    | cons e below =>
      have hreader : e.isReader = true := hsplit.below e rfl
      cases e with
      | reader slots k =>
        exact .caught _ ⟨slots, k, below, _, { σ with slots := slots }, rfl, rfl, rfl, rfl⟩
      | _ => cases hreader
  | cons e left ih =>
    have he : e.isQuiet = true := hquiet e List.mem_cons_self
    have hleft : ∀ e ∈ left, e.isQuiet = true := fun e' he' => hquiet e' (List.mem_cons_of_mem _ he')
    have hsplit' : Splits left below :=
      ⟨fun e' he' => hsplit.above e' (List.mem_cons_of_mem _ he'), hsplit.below⟩
    replace ih := fun {m} => @ih hsplit' hleft m
    rw [List.cons_append]
    cases e with
    | frame site slots k =>
      rw [unwind]
      exact ih (m := { m with depth := m.depth - 1 }) hm fault σ
    | scope labels =>
      rw [unwind]
      exact ih hm fault σ
    | closing site v => cases he
    | guard handler slots k =>
      rw [unwind, finishGuard_call hm]
      have hunhandled : Unhandled (left ++ below) := fun v hv =>
        handlerFor_quiet hleft (hhandler v hv)
      refine .further _ ?_
      exact failure_lands hunhandled ih (m := { m with stack := left ++ below, depth := m.depth - 1 })
        hm rfl (v := .failure guardText) rfl { σ with slots := slots }
    | reader slots k =>
      have hreader := hsplit.above _ List.mem_cons_self
      cases hreader
    | handling handler again watched depth slots => cases he
    | unwinding inner =>
      rw [unwind]
      exact ih hm fault σ

/-- If there is neither a handler nor anything to close, an error that stops the run reaches the
innermost reader, or the end. -/
theorem spent_lands {a : Machine × Step} (ha : Spends limits a)
    (hquiet : ∀ e ∈ aboveReader a.1.stack, e.isQuiet = true)
    (hhandler : Unhandled (fromReader a.1.stack)) :
    Lands limits (fromReader a.1.stack) a.2.store.data (step limits a.1 a.2) := by
  obtain ⟨m, text, σ, hstep, hstack, hspent, hdata⟩ := step_of_spends ha
  have hunhandled : handlerFor (.failure text) m.stack = none := by
    have hquiet' := handlerFor_quiet hquiet (hhandler (.failure text) rfl)
    rw [aboveReader_append] at hquiet'
    rw [hstack]
    exact hquiet'
  have hlands := unwind_lands limits (splits_stack _) hquiet hhandler hspent
    (.raised (.failure text)) σ
  rw [aboveReader_append, ← hstack, hdata] at hlands
  rw [hstep, raise_unhandled hunhandled, ← hstack]
  exact hlands

theorem Lands.reaches {data : Store} {p : Progress} (h : Lands limits below data p)
    {a : Machine × Step} (hp : step limits a.1 a.2 = p) :
    (∃ c, Follows limits a c ∧ Caught below data c) ∨
      below = [] ∧ ∃ b final, Reaches limits a b ∧ step limits b.1 b.2 = .error final ∧
        final.store.data = data := by
  induction h generalizing a with
  | caught b h => exact .inl ⟨b, .single hp, h⟩
  | ends fault σ hbelow hdata => exact .inr ⟨hbelow, a, _, .refl, hp, hdata⟩
  | further b _ ih =>
    obtain ⟨c, hfollows, hcaught⟩ | ⟨hbelow, c, final, hreach, hend⟩ := ih rfl
    · exact .inl ⟨c, .head hp hfollows, hcaught⟩
    · exact .inr ⟨hbelow, c, final, .head hp hreach, hend⟩

end Quiet

/-! ### The whole run -/

/-- What becomes of a run from a look at its instructions on that has found them spent.  A reader is
the only thing that can keep the error from the end of the run. -/
structure Stopped (limits : Limits) (a : Machine × Step) : Prop where
  /-- A guarded call that a script has made does not return. -/
  guarded : ∀ b c handler slots k below, Follows limits a b → Reaches limits b c →
    .guard handler slots k :: below <:+ b.1.stack →
      .guard handler slots k :: below <:+ c.1.stack ∨
        ∃ d, Follows limits b d ∧ Reaches limits d c ∧ d.1.stack = below ∧
          ∃ σ, d.2 = .fail (.raised (.failure guardText)) σ
  /-- Until a reader has caught the error, it falls, or is handled, or something is closed. -/
  down : ∀ b, Follows limits a b →
    Falling (aboveReader a.1.stack) (fromReader a.1.stack) b ∨
      Cleaning (aboveReader a.1.stack) (fromReader a.1.stack) b ∨
        ∃ c data, Follows limits a c ∧ Reaches limits c b ∧
          Caught (fromReader a.1.stack) data c
  /-- Where it falls, nothing that a script can see changes. -/
  unchanged : ∀ b c, b = a ∨ Falling (aboveReader a.1.stack) (fromReader a.1.stack) b →
    Leads limits b c →
      c.2.store.data = b.2.store.data ∨
        Cleaning (aboveReader a.1.stack) (fromReader a.1.stack) c ∨
          Caught (fromReader a.1.stack) b.2.store.data c
  /-- The run ends as one whose instructions are spent, and in an error if there is no reader. -/
  final : ∀ b final, Reaches limits a b → step limits b.1 b.2 = .error final →
    final.exhausted = true ∧
      (fromReader a.1.stack = [] → ∃ fault, final.outcome = .error fault)
  /-- If nothing is to be handled or closed, a reader does catch the error. -/
  caught : (∀ e ∈ aboveReader a.1.stack, e.isQuiet = true) →
    Unhandled (fromReader a.1.stack) → fromReader a.1.stack ≠ [] →
      ∃ c, Follows limits a c ∧ Caught (fromReader a.1.stack) a.2.store.data c
  /-- If there is no reader either, the run does end. -/
  ends : (∀ e ∈ a.1.stack, e.isQuiet = true) → fromReader a.1.stack = [] →
    ∃ b final, Reaches limits a b ∧ step limits b.1 b.2 = .error final ∧
      final.store.data = a.2.store.data

theorem stopped_of_spends {limits : Limits} {a : Machine × Step} (ha : Spends limits a) :
    Stopped limits a where
  guarded b c handler slots k below hb hc hstack :=
    (guarded_call_ends ⟨hstack, exhausted_of_follows ha hb⟩ hc).imp_left fun h => h.stack
  down b hb := descent ha hb
  unchanged b c hb hstep := descent_data ha hb hstep
  final b final hb hend :=
    ⟨final_exhausted ha hb hend, fun hreader => final_fails ha hreader hb hend⟩
  caught hquiet hhandler hreader := by
    obtain hcaught | ⟨hbelow, -⟩ := (spent_lands ha hquiet hhandler).reaches rfl
    · exact hcaught
    · exact absurd hbelow hreader
  ends hquiet hreader := by
    have habove : ∀ e ∈ aboveReader a.1.stack, e.isQuiet = true := fun e he =>
      hquiet e ((List.takeWhile_sublist _).subset he)
    have hhandler : Unhandled (fromReader a.1.stack) := by
      rw [hreader]
      exact unhandled_nil
    obtain ⟨c, -, slots, k, rest, v, σ, hbelow, -⟩ | ⟨-, hends⟩ :=
      (spent_lands ha habove hhandler).reaches rfl
    · rw [hreader] at hbelow
      cases hbelow
    · exact hends

end Machine

end LuaConfig.Lua
