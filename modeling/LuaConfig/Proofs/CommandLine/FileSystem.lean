/-
File systems.

What runs of the program rely on is that reading leaves all files as they are, that a write which
fails does so too, and that a write which succeeds changes no other file.  A tree of files is such a
system (`FileTree.system`).
-/
import LuaConfig.CommandLine.Run
import Mathlib.Data.List.Infix

namespace LuaConfig

open CommandLine

/-- A system of files: its states, the places in it that paths lead to, and what is there.  Contents
need not be texts: a file that is none cannot be read. -/
structure FileSystem (σ π β : Type) where
  files : Files (StateM σ)
  place : σ → String → Option π
  content : σ → π → Option β
  read_same (s : σ) (path : String) : ((files.read path).run s).2 = s
  write_failed (s : σ) (path text : String) :
    ((files.write path text).run s).1 = false → ((files.write path text).run s).2 = s
  write_elsewhere (s : σ) (path text : String) (p : π) :
    place s path ≠ some p → content ((files.write path text).run s).2 p = content s p
  read_written (s : σ) (path text : String) :
    ((files.write path text).run s).1 = true →
      ((files.read path).run ((files.write path text).run s).2).1 = some text

namespace FileTree

variable {t t' : FileTree} {place here p : List String} {text : String}

/-! ### Directories -/

theorem isDirectory_above (h : t.isDirectory place = true) (hp : p <+: place) :
    t.isDirectory p = true := by
  rw [isDirectory, Bool.or_eq_true, List.any_eq_true] at h ⊢
  rcases h with hroot | ⟨f, hf, hbelow⟩
  · rw [List.isEmpty_iff] at hroot
    exact Or.inl (List.isEmpty_iff.mpr (List.prefix_nil.mp (hroot ▸ hp)))
  · rw [Bool.and_eq_true, decide_eq_true_eq, List.isPrefixOf_iff_prefix] at hbelow
    refine Or.inr ⟨f, hf, ?_⟩
    rw [Bool.and_eq_true, decide_eq_true_eq, List.isPrefixOf_iff_prefix]
    exact ⟨hp.length_le.trans_lt hbelow.1, hp.trans hbelow.2⟩

/-- Steps lead to a place in a directory. -/
theorem isDirectory_of_walk {steps : List String} (hhere : t.isDirectory here.dropLast = true)
    (h : t.walk here steps = some place) : t.isDirectory place.dropLast = true := by
  induction steps generalizing here with
  | nil =>
    cases h
    exact hhere
  | cons step rest ih =>
    rw [walk] at h
    split_ifs at h with hdirectory hstay hback hroot
    · exact ih hhere h
    · exact ih (isDirectory_above hhere (List.dropLast_prefix _)) h
    · refine ih ?_ h
      rw [List.dropLast_concat]
      exact hdirectory

theorem isDirectory_of_resolve {path : String} (h : t.resolve path = some place) :
    t.isDirectory place.dropLast = true := by
  rw [resolve] at h
  split_ifs at h
  exact isDirectory_of_walk rfl h

/-- Only directories matter for where paths lead. -/
theorem resolve_congr (h : ∀ p, t'.isDirectory p = t.isDirectory p) (path : String) :
    t'.resolve path = t.resolve path := by
  have hwalk : ∀ (steps here : List String), t'.walk here steps = t.walk here steps := by
    intro steps
    induction steps with
    | nil => exact fun _ => rfl
    | cons step rest ih =>
      intro here
      simp only [walk, h, ih]
  rw [resolve, resolve, hwalk]

/-! ### Files that are put in their place -/

theorem lookup_cons_eq (q : List String) (c : String) (rest : List (List String × String)) :
    ((q, c) :: rest).lookup p = if p = q then some c else rest.lookup p := by
  rw [List.lookup_cons]
  by_cases hp : p = q
  · rw [if_pos hp, beq_iff_eq.mpr hp]
  · rw [if_neg hp, beq_eq_false_iff_ne.mpr hp]

theorem lookup_put (files : List (List String × String)) :
    (put place text files).lookup p = if p = place then some text else files.lookup p := by
  induction files with
  | nil => exact lookup_cons_eq place text []
  | cons f rest ih =>
    obtain ⟨q, c⟩ := f
    rw [put]
    split_ifs with hq hp hp
    · rw [lookup_cons_eq, if_pos (hp.trans hq.symm)]
    · rw [lookup_cons_eq, lookup_cons_eq, if_neg (hq ▸ hp), if_neg (hq ▸ hp)]
    · rw [lookup_cons_eq, if_neg (fun h => hq (h.symm.trans hp)), ih, if_pos hp]
    · rw [lookup_cons_eq, lookup_cons_eq, ih, if_neg hp]

theorem any_put (f : List String → Bool) (files : List (List String × String)) :
    (put place text files).any (fun e => f e.1) = (f place || files.any fun e => f e.1) := by
  induction files with
  | nil => rfl
  | cons e rest ih =>
    obtain ⟨q, c⟩ := e
    rw [put]
    by_cases hq : q = place
    · rw [if_pos hq, List.any_cons, List.any_cons, hq]
      simp
    · rw [if_neg hq, List.any_cons, ih, List.any_cons]
      exact Bool.or_left_comm _ _ _

/-- A file that is put in a directory makes no further directories. -/
theorem isDirectory_put (h : t.isDirectory place.dropLast = true) :
    isDirectory ⟨put place text t.files⟩ p = t.isDirectory p := by
  rw [isDirectory, any_put fun q => p.length < q.length && p.isPrefixOf q]
  by_cases hp : p.length < place.length ∧ p <+: place
  · -- a place above the new file is that of its directory, or above it
    have hparent : p <+: place.dropLast := by
      rw [List.prefix_iff_eq_take.mp hp.2, List.dropLast_eq_take]
      exact List.take_prefix_take_left (by omega)
    rw [isDirectory_above h hparent]
    simp [hp.1, List.isPrefixOf_iff_prefix.mpr hp.2]
  · have hnot : (decide (p.length < place.length) && p.isPrefixOf place) = false := by
      rw [Bool.and_eq_false_iff, decide_eq_false_iff_not, Bool.eq_false_iff, ne_eq,
        List.isPrefixOf_iff_prefix, ← not_and_or]
      exact hp
    rw [hnot, Bool.false_or]
    rfl

/-! ### The system -/

theorem write_eq_some {path : String} (h : t.write path text = some t') :
    ∃ place, t.resolve path = some place ∧ t.isDirectory place = false ∧
      t' = ⟨put place text t.files⟩ := by
  rw [write, Option.bind_eq_bind, Option.bind_eq_some_iff] at h
  obtain ⟨place, hplace, h⟩ := h
  split_ifs at h with hdirectory
  exact ⟨place, hplace, Bool.eq_false_iff.mpr hdirectory, (Option.some.inj h).symm⟩

theorem run_write (t : FileTree) (path text : String) :
    (treeFiles.write path text).run t =
      ((t.write path text).isSome, (t.write path text).getD t) := by
  simp only [treeFiles, StateT.run_bind, StateT.run_get, pure_bind]
  cases t.write path text <;> rfl

/-- A tree of files is a system of files. -/
def system : FileSystem FileTree (List String) String where
  files := treeFiles
  place := resolve
  content t p := t.files.lookup p
  read_same _ _ := rfl
  write_failed t path text h := by
    rw [run_write] at h ⊢
    rw [Option.not_isSome_iff_eq_none.mp (Bool.eq_false_iff.mp h), Option.getD_none]
  write_elsewhere t path text p hp := by
    rw [run_write]
    cases hwrite : t.write path text with
    | none => rfl
    | some t' =>
      obtain ⟨place, hplace, -, rfl⟩ := write_eq_some hwrite
      rw [hplace] at hp
      exact (lookup_put t.files).trans (if_neg fun heq => hp (congrArg some heq.symm))
  read_written t path text h := by
    rw [run_write] at h ⊢
    obtain ⟨t', hwrite⟩ := Option.isSome_iff_exists.mp h
    obtain ⟨place, hplace, -, rfl⟩ := write_eq_some hwrite
    rw [hwrite, Option.getD_some]
    show read _ path = some text
    have hparent := isDirectory_of_resolve hplace
    rw [read, resolve_congr fun p => isDirectory_put hparent, hplace]
    exact (lookup_put t.files).trans (if_pos rfl)

end FileTree

end LuaConfig
