/-
What becomes of a script whose instructions are spent.

A script is stopped by an error that it cannot catch by guarding its calls.  It can do so only by
loading a text from a reader: `load` catches all errors of its reader and returns.

The collector takes no part in a run: no finalizer is called while a script runs, and none is called
here.

Main statements:
* `spent_budget` — every script, from every look at its instructions on that finds them spent;
* `spent_budget_unstopped` — a script that catches the error and goes on.
-/
import LuaConfig.Proofs.Lua.Unwinding
import LuaConfig.Proofs.Sandbox.Run

namespace LuaConfig

open Lua Lua.Machine

namespace Sandbox

/-! ### A script that is stopped, and one that is not -/

/-- A script that never ends. -/
def endless : String := "while true do end"

/-- A script that loads a text from a reader that never returns, and goes on. -/
def unstopped : String := "load(function() while true do end end) print('after')"

/-- The function of a loop that does nothing. -/
def spinning (vararg : Bool) (captures : List Capture) : Function :=
  .mk "modinfo.lua" 0 vararg 0 captures (.mk false [.while (.const (.bool true)) (.mk false [])])

/-- A call of a function from the globals. -/
def globalCall (name : String) (args : List Expr) : Expr :=
  .call (.index (.upvalue 0 environmentName) (.const (.ofString name)) 1) args
    ⟨"modinfo.lua", 1, some ⟨.globalVariable, name⟩⟩

/-- The function of the script that goes on. -/
def unstoppedCode : Function :=
  .mk "modinfo.lua" 0 true 0 [.upvalue 0] (.mk false
    [.call (globalCall "load" [.function (spinning false [])]),
     .call (globalCall "print" [.const (.ofString "after")])])

theorem function_endless :
    function .globals "modinfo.lua" (Octets.ofString endless) =
      .ok (spinning true [.upvalue 0]) := by
  cbv

theorem function_unstopped :
    function .globals "modinfo.lua" (Octets.ofString unstopped) = .ok unstoppedCode := by
  cbv

/-- The options under which the scripts are run. -/
def tight : SandboxOptions := { instructionLimit := some 1000, memoryLimit := none }

section Scripts

variable {m : Machine} {σ : Store} {below : List Entry} {labels : List (Label × (Store → Step))}

/-- The round of a loop that does nothing. -/
def round (σ : Store) : Step := .jump .again (σ.charge 1)

/-- A loop that does nothing goes on until its instructions are looked at. -/
theorem round_reaches (hstack : m.stack = .scope labels :: below)
    (hlabel : labels.lookup .again = some round) (hspent : σ.spent ≤ m.meter.next) :
    Reaches (limits tight) (m, .jump .again σ)
      (m, .jump .again { σ with spent := m.meter.next }) := by
  -- on the number of rounds that are left
  induction hleft : m.meter.next - σ.spent generalizing σ with
  | zero =>
    have hnext : σ.spent = m.meter.next := by omega
    rw [← hnext]
  | succ left ih =>
    have hround : Leads (limits tight) (m, .jump .again σ) (m, .jump .again (σ.charge 1)) := by
      refine leads_of_lt rfl (by simp only [Step.store]; omega) ?_
      rw [answer, hstack, jump, hlabel]
      dsimp only
      rw [← hstack]
      rfl
    have hcharge : (σ.charge 1).spent = σ.spent + 1 := rfl
    exact .head hround (ih (σ := σ.charge 1) (by omega) (by omega))

theorem run_spinning (vararg : Bool) (captures : List Capture) (upvalues : Array Nat) (σ : Store) :
    (spinning vararg captures).run upvalues [] σ =
      .enter [(.again, round)] round { σ with slots := initialSlots 0 0 [] } := by
  rw [spinning, Function.run]
  simp only [Block.exec, Stmt.execList, Stmt.exec, Expr.eval, Value.isTrue, if_true]
  rfl

/-- A function that never returns runs until its instructions are looked at. -/
theorem spinning_reaches (hspent : σ.spent < m.meter.next) (vararg : Bool)
    (captures : List Capture) (upvalues : Array Nat) :
    Reaches (limits tight) (m, (spinning vararg captures).run upvalues [] σ)
      ({ m with stack := .scope [(.again, round)] :: m.stack },
        .jump .again { σ with slots := initialSlots 0 0 [], spent := m.meter.next }) := by
  rw [run_spinning]
  have henter : Leads (limits tight)
      (m, .enter [(.again, round)] round { σ with slots := initialSlots 0 0 [] })
      ({ m with stack := .scope [(.again, round)] :: m.stack },
        .jump .again (Store.charge { σ with slots := initialSlots 0 0 [] } 1)) := by
    refine leads_of_lt rfl ?_ rfl
    exact hspent
  exact .head henter (round_reaches rfl rfl hspent)

/-- What is found at a thousand instructions. -/
theorem checkInstructions_tight (hunwatched : isUnwatched m.stack = false)
    (hm : m.meter = ⟨1000, false⟩) :
    checkInstructions (limits tight) m 1000 =
      ({ m with meter := ⟨2000, true⟩ }, some (exhaustedText 1000)) := by
  simp [checkInstructions, limits, tight, hm, hunwatched, interval]

theorem spends_tight (hunwatched : isUnwatched m.stack = false) (hm : m.meter = ⟨1000, false⟩)
    (hspent : σ.spent = 1000) : Spends (limits tight) (m, .jump .again σ) := by
  show (checkInstructions (limits tight) m σ.spent).2 ≠ none
  rw [hspent, checkInstructions_tight hunwatched hm]
  simp

/-- A store with the globals `g`, in which a script finds `load` and `print`. -/
structure Offers (cell g : Nat) (σ : Store) : Prop where
  globals : σ.cells.getD cell .nil = .table g
  load : σ.rawGet g (.ofString "load") = .builtin (.base .load)
  print : σ.rawGet g (.ofString "print") = .builtin (.base .print)

theorem index_of_rawGet {place : Place} {ref : Nat} {key v : Value} {naming : Option Naming}
    {k : Continuation Value} (h : σ.rawGet ref key = v) (hv : v ≠ .nil) :
    Operation.index place (.table ref) key naming k σ = k v σ := by
  show Operation.indexFrom place naming key k (1999 + 1) (.table ref) σ = _
  rw [Operation.indexFrom]
  simp only [h]

/-- The script calls `load`, then `print`. -/
theorem run_unstopped {cell g : Nat} (h : Offers cell g σ) :
    ∃ site k, unstoppedCode.run #[cell] [] σ =
        .call site (.builtin (.base .load)) [.func σ.functions.size] k
          (Store.charge (Store.newFunction { σ with slots := initialSlots 0 0 [] }
            (.script (spinning false []) #[])).2 4) ∧
      ∀ vs σ, Offers cell g σ → ∃ site k', k vs σ =
          .call site (.builtin (.base .print)) [.ofString "after"] k' (σ.charge 3) ∧
        ∀ vs σ, k' vs σ = .done [] (σ.charge 1) := by
  have hglobals : Store.upvalue { σ with slots := initialSlots 0 0 [] }
      ⟨"modinfo.lua", #[cell], []⟩ 0 = .table g := h.globals
  have hload : (Store.charge { σ with slots := initialSlots 0 0 [] } 1).rawGet g
      (.ofString "load") = .builtin (.base .load) := h.load
  rw [unstoppedCode, Function.run]
  simp only [Block.exec, Stmt.execList, Stmt.exec, globalCall, Expr.eval, Expr.evalList,
    Expr.evalMulti, if_true, List.drop_nil, hglobals, index_of_rawGet hload (by simp)]
  refine ⟨_, _, rfl, fun vs σ' h' => ?_⟩
  have hglobals' : σ'.upvalue ⟨"modinfo.lua", #[cell], []⟩ 0 = .table g := h'.globals
  have hprint : (σ'.charge 1).rawGet g (.ofString "print") = .builtin (.base .print) := h'.print
  simp only [hglobals', index_of_rawGet hprint (by simp)]
  exact ⟨_, _, rfl, fun _ _ => rfl⟩

/-- `load` asks its reader for the first piece of a text. -/
theorem run_load (n : Nat) (σ : Store) : ∃ k,
    (Builtin.base .load).run [.func n] σ =
      .enter [(.again, fun σ => .read (.func n) k (σ.charge 1))]
        (fun σ => .read (.func n) k (σ.charge 1)) { σ with slots := #[.direct (.str .empty)] } :=
  ⟨_, rfl⟩

/-- A call of `load` comes to a call of the reader. -/
theorem load_reaches (site : Option Site) (hm : m.stack = []) (hdepth : m.depth = 0)
    (hspent : σ.spent + 1 < m.meter.next) {n : Nat} {code : Function}
    (hcode : σ.functions[n]? = some (.script code #[])) (k : List Value → Store → Step) :
    ∃ slots k' labels,
      Reaches (limits tight) (m, .call site (.builtin (.base .load)) [.func n] k σ)
        ({ m with stack := [.reader slots k', .scope labels, .frame site σ.slots k], depth := 2 },
          code.run #[] [] { σ.charge 1 with slots := #[] }) := by
  obtain ⟨k', hload⟩ := run_load n { σ with slots := #[] }
  let again : Store → Step := fun σ => .read (.func n) k' (σ.charge 1)
  let σ' : Store := { σ with slots := #[.direct (.str .empty)] }
  -- `load` is called, enters its loop, and calls the reader function
  have hcall : Leads (limits tight) (m, .call site (.builtin (.base .load)) [.func n] k σ)
      ({ m with stack := [.frame site σ.slots k], depth := 1 },
        .enter [(.again, again)] again σ') := by
    refine leads_of_lt rfl (by simp only [Step.store]; omega) ?_
    simp only [answer, hm, push, hdepth, maxDepth]
    exact congrArg (fun s => Except.ok (_, s)) hload
  have henter : Leads (limits tight)
      ({ m with stack := [.frame site σ.slots k], depth := 1 }, .enter [(.again, again)] again σ')
      ({ m with stack := [.scope [(.again, again)], .frame site σ.slots k], depth := 1 },
        .read (.func n) k' (σ'.charge 1)) :=
    leads_of_lt rfl (by simp only [Step.store, σ']; omega) rfl
  have hread : Leads (limits tight)
      ({ m with stack := [.scope [(.again, again)], .frame site σ.slots k], depth := 1 },
        .read (.func n) k' (σ'.charge 1))
      ({ m with
          stack := [.reader σ'.slots k', .scope [(.again, again)], .frame site σ.slots k]
          depth := 2 },
        code.run #[] [] { σ.charge 1 with slots := #[] }) := by
    refine leads_of_lt rfl (by simp only [Step.store, σ', Store.charge]; omega) ?_
    rw [answer, if_neg (by simp only [maxDepth]; omega), invoke_script (σ := σ'.charge 1) hcode]
    rfl
  exact ⟨_, _, _, .head hcall (.head henter (.single hread))⟩

/-- A reader's caller is returned nil and the error by which the reader was stopped. -/
theorem reader_leads {slots : Array Slot} {k : List Value → Store → Step}
    (hstack : m.stack = .scope labels :: .reader slots k :: below)
    (hunwatched : isUnwatched below = false) (hunhandled : Unhandled below)
    (hm : m.meter = ⟨1000, false⟩) (hspent : σ.spent = 1000) :
    Leads (limits tight) (m, .jump .again σ)
      (⟨below, m.depth - 1, ⟨2000, true⟩⟩,
        .done [.nil, .failure (exhaustedText 1000)] { σ with slots := slots }) := by
  have hhandler : handlerFor (.failure (exhaustedText 1000)) m.stack = none := by
    rw [hstack]
    exact hunhandled _ rfl
  have hchecked := checkInstructions_tight (m := m) (by rw [hstack]; exact hunwatched) hm
  have hroom : checkMemory (limits tight) m (.jump .again σ) = .jump .again σ := rfl
  have hraise : step (limits tight) m (.jump .again σ) =
      raise { m with meter := ⟨2000, true⟩ } false (.failure (exhaustedText 1000)) σ := by
    simp only [step, hroom, Step.store, hspent, hchecked]
  rw [Leads, hraise, raise_unhandled (m := { m with meter := ⟨2000, true⟩ }) hhandler, hstack]
  rfl

/-- A call of `load` returns whose reader is stopped. -/
theorem load_returns (site : Option Site) (hspent : σ.spent + 1 < 1000) {n : Nat}
    (hcode : σ.functions[n]? = some (.script (spinning false []) #[]))
    (k : List Value → Store → Step) :
    ∃ a, Reaches (limits tight) (initial, .call site (.builtin (.base .load)) [.func n] k σ) a ∧
      Spends (limits tight) a ∧ a.2.store.prints = σ.prints ∧
      Reaches (limits tight) a
        (⟨[], 0, ⟨2000, true⟩⟩, k [.nil, .failure (exhaustedText 1000)] { σ with spent := 1000 }) := by
  obtain ⟨slots, k', labels, hload⟩ := load_reaches (m := initial) site rfl rfl hspent
    hcode k
  let below : List Entry := [.scope labels, .frame site σ.slots k]
  let m : Machine := ⟨.reader slots k' :: below, 2, ⟨1000, false⟩⟩
  have hreader := spinning_reaches (m := m) (σ := { σ.charge 1 with slots := #[] }) hspent false []
    #[]
  -- nothing below handles the error, so the reader of the text catches it
  have hquiet : ∀ e ∈ below, e.isQuiet = true := by simp [below, Entry.isQuiet]
  have hcatch := reader_leads (m := { m with stack := .scope [(.again, round)] :: m.stack })
    (σ := { σ with slots := initialSlots 0 0 [], spent := 1000 }) rfl rfl
    (fun v hv => handlerFor_quiet hquiet (unhandled_nil v hv)) rfl rfl
  have hreturn : Leads (limits tight)
      (⟨below, 1, ⟨2000, true⟩⟩,
        .done [.nil, .failure (exhaustedText 1000)] { σ with slots := slots, spent := 1000 })
      (⟨[], 0, ⟨2000, true⟩⟩,
        k [.nil, .failure (exhaustedText 1000)] { σ with spent := 1000 }) := by
    refine leads_of_lt rfl (by simp [Step.store]) ?_
    simp only [answer, below, resume]
  exact ⟨_, hload.trans hreader, spends_tight rfl rfl rfl, rfl, .head hcatch (.single hreturn)⟩

/-- A script that has nothing left but to print a line ends. -/
theorem print_ends (site : Option Site) (hm : m.stack = []) (hdepth : m.depth = 0)
    (hspent : σ.spent + 1 < m.meter.next) {k : List Value → Store → Step}
    (hk : ∀ vs σ, k vs σ = .done [] (σ.charge 1)) :
    ∃ b final, Reaches (limits tight)
        (m, .call site (.builtin (.base .print)) [.ofString "after"] k σ) b ∧
      step (limits tight) b.1 b.2 = .error final ∧ final.outcome = .ok [] ∧
        final.store.prints = "after" :: σ.prints := by
  have hline : "\t".intercalate ([Value.ofString "after"].map Value.printed) = "after" := by
    decide
  let σ' : Store := { σ with slots := #[], prints := "after" :: σ.prints }
  have hprint : invoke site (.builtin (.base .print)) [.ofString "after"] σ = .done [] σ' := by
    show Step.done [] { σ with slots := #[], prints := _ :: σ.prints } = _
    rw [hline]
  have hcall : Leads (limits tight)
      (m, .call site (.builtin (.base .print)) [.ofString "after"] k σ)
      ({ m with stack := [.frame site σ.slots k], depth := 1 }, .done [] σ') := by
    refine leads_of_lt rfl (by simp only [Step.store]; omega) ?_
    rw [answer, push.eq_def, if_neg (by simp only [maxDepth]; omega), hprint, hm, hdepth]
  have hreturn : Leads (limits tight)
      ({ m with stack := [.frame site σ.slots k], depth := 1 }, .done [] σ')
      ({ m with stack := [], depth := 0 },
        .done [] (Store.charge { σ' with slots := σ.slots } 1)) := by
    refine leads_of_lt rfl (by simp only [Step.store, σ']; omega) ?_
    rw [answer, resume, hk]
    rfl
  refine ⟨_, _, .head hcall (.single hreturn), step_of_lt rfl ?_, rfl, rfl⟩
  exact hspent

theorem start_tight {source : String} {code : Function}
    (hcode : function .globals "modinfo.lua" (Octets.ofString source) = .ok code) :
    start? tight .globals "modinfo.lua" source {} =
      some (initial, code.run #[(prepare tight {}).cells.size] [] (startStore tight {} code)) := by
  have hname : refuseName? (Octets.ofString ("=" ++ "modinfo.lua")) = none := by decide +kernel
  have hshown : ChunkName.shown (Octets.ofString ("=" ++ "modinfo.lua")) = "modinfo.lua" := by
    decide
  have hread : read .globals "modinfo.lua" source = .ok code := by
    simp only [read, hname, hshown, hcode]
  rw [start?_of_read _ rfl hread, startOf_eq]

theorem offers_startStore :
    Offers (prepare tight {}).cells.size (prepare tight {}).globals (startStore tight {} unstoppedCode) where
  globals := by simp [startStore, Store.newChunk, Store.newCell, Store.newFunction]
  load := by decide +kernel
  print := by decide +kernel

end Scripts

/-! ### Spent instructions -/

section Main

variable {options : SandboxOptions} {root : Root} {chunk source : String} {choices : Choices}

/-- From any look at its instructions on that finds them spent, a script is stopped.  If its run
ends, it is reported that the instructions were spent.  The run does end, and leaves what the script
had done, if there is no reader of a text and nothing to be handled or closed.  The run is the
machine's: the collector takes no part in it, so that scripts whose finalizers would be called on
the way, or whose weak references would be lost, are not spoken of. -/
theorem spent_budget {limit : Nat} {start a : Machine × Step}
    (hlimit : options.instructionLimit = some limit)
    (hstart : start? options root chunk source choices = some start)
    (hreach : Reaches (limits options) start a) (hspent : Spends (limits options) a) :
    Stopped (limits options) a ∧
      (∀ fuel final, Machine.run (limits options) fuel start.1 start.2 = some final →
        ∃ o, runFor fuel options root chunk source choices = some o ∧
          o.root = .error (.outOfInstructions chunk limit)) ∧
      ((∀ e ∈ a.1.stack, e.isQuiet = true) → fromReader a.1.stack = [] →
        ∃ fuel o, runFor fuel options root chunk source choices = some o ∧
          o.root = .error (.outOfInstructions chunk limit) ∧
          o.store.data = a.2.store.data) := by
  have hstopped := stopped_of_spends hspent
  refine ⟨hstopped, fun fuel final hrun => ?_, fun hquiet hreader => ?_⟩
  · obtain ⟨fuel', hrun'⟩ := run_of_reaches hreach hrun
    obtain ⟨b, hb, hend⟩ := ends_of_run hrun'
    obtain ⟨hexhausted, -⟩ := hstopped.final b final hb hend
    exact ⟨_, runFor_of_run hstart hrun, by rw [finish_exhausted hlimit hexhausted]⟩
  · obtain ⟨b, final, hb, hend, hdata⟩ := hstopped.ends hquiet hreader
    obtain ⟨hexhausted, -⟩ := hstopped.final b final hb hend
    obtain ⟨fuel, hrun⟩ := run_of_ends (hreach.trans hb) hend
    refine ⟨fuel, _, runFor_of_run hstart hrun, ?_⟩
    rw [finish_exhausted hlimit hexhausted]
    exact ⟨rfl, hdata⟩

theorem spent_budget_endless :
    ∃ start a, start? tight .globals "modinfo.lua" endless {} = some start ∧
      Reaches (limits tight) start a ∧ Spends (limits tight) a ∧ Stopped (limits tight) a ∧
      ∃ fuel o, runFor fuel tight .globals "modinfo.lua" endless {} = some o ∧
        o.root = .error (.outOfInstructions "modinfo.lua" 1000) := by
  have hspent := spent_startStore tight {} (spinning true [.upvalue 0])
  have hstart := start_tight function_endless
  have hreach := spinning_reaches (m := initial) (σ := startStore tight {} (spinning true [.upvalue 0]))
    (by rw [hspent]; decide) true [.upvalue 0] #[(prepare tight {}).cells.size]
  have hspends := spends_tight (m := { initial with stack := [.scope [(.again, round)]] })
    (σ := { startStore tight {} (spinning true [.upvalue 0]) with slots := initialSlots 0 0 [], spent := 1000 })
    rfl rfl rfl
  obtain ⟨hstopped, -, hends⟩ := spent_budget rfl hstart hreach hspends
  obtain ⟨fuel, o, ho, hroot, -⟩ := hends (by simp [initial, Entry.isQuiet]) rfl
  exact ⟨_, _, hstart, hreach, hspends, hstopped, fuel, o, ho, hroot⟩

/-- A script goes on after its instructions have been found spent, and prints a line. -/
theorem spent_budget_unstopped :
    ∃ start a b final, start? tight .globals "modinfo.lua" unstopped {} = some start ∧
      Reaches (limits tight) start a ∧ Spends (limits tight) a ∧ a.2.store.prints = [] ∧
      Reaches (limits tight) a b ∧ step (limits tight) b.1 b.2 = .error final ∧
      final.outcome = .ok [] ∧ final.store.prints = ["after"] := by
  have hspent := spent_startStore tight {} unstoppedCode
  obtain ⟨site, k, hrun, hk⟩ := run_unstopped offers_startStore
  have hstart := start_tight function_unstopped
  rw [hrun] at hstart
  let σ : Store := Store.charge (Store.newFunction { startStore tight {} unstoppedCode with
    slots := initialSlots 0 0 [] } (.script (spinning false []) #[])).2 4
  obtain ⟨a, hreach, hspends, hprints, hload⟩ := load_returns (σ := σ) site
    (show (startStore tight {} unstoppedCode).spent + 4 + 1 < 1000 by rw [hspent]; decide)
    (n := (startStore tight {} unstoppedCode).functions.size) Array.getElem?_push_size k
  have hoffers : Offers (prepare tight {}).cells.size (prepare tight {}).globals
      { σ with spent := 1000 } :=
    ⟨offers_startStore.globals, offers_startStore.load, offers_startStore.print⟩
  obtain ⟨site', k', hk', hlast⟩ := hk [.nil, .failure (exhaustedText 1000)] _ hoffers
  rw [hk'] at hload
  obtain ⟨b, final, hprint, hend, houtcome, hprinted⟩ := print_ends (m := ⟨[], 0, ⟨2000, true⟩⟩)
    (σ := Store.charge { σ with spent := 1000 } 3) site' rfl rfl (by decide) hlast
  have hbefore : σ.prints = [] := prints_startStore tight {} unstoppedCode
  refine ⟨_, a, b, final, hstart, hreach, hspends, hprints.trans hbefore, hload.trans hprint, hend,
    houtcome, ?_⟩
  rw [hprinted]
  exact congrArg (List.cons "after") hbefore

end Main

end Sandbox

end LuaConfig
