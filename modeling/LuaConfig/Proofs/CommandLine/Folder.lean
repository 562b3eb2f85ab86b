/-
The folder of a mod's description.

Without a folder name among the arguments a script is told the name that its path gives to the
folder.  That is the name of the directory that holds the file, however the path is spelled, unless
the folder's part of the path ends in `..`: such a path names the folder by what is left behind, and
the script is told nothing.

Main statement:
* `modInfo_folderName` — what a script is told of its folder, and which spellings of a path print
  the same.
-/
import LuaConfig.Proofs.CommandLine.Output
import LuaConfig.Proofs.Sandbox.Globals

namespace LuaConfig

open CommandLine Lua

/-! ### Paths -/

namespace Path

/-- Where names lead from a directory: `..` goes back, and stays in the first directory. -/
def follow (here names : List String) : List String :=
  names.foldl (fun place name => if name = ".." then place.dropLast else place ++ [name]) here

/-- Does the folder's part of a path end in a step back? -/
def endsBack (path : String) : Bool := (names path).dropLast.getLast? = some ".."

variable {here : List String}

theorem follow_concat_name {name : String} (hname : name ≠ "..") (names : List String) :
    follow here (names ++ [name]) = follow here names ++ [name] := by
  rw [follow, List.foldl_append, List.foldl_cons, List.foldl_nil, if_neg hname]
  rfl

theorem follow_concat_back (names : List String) :
    follow here (names ++ [".."]) = (follow here names).dropLast := by
  rw [follow, List.foldl_append, List.foldl_cons, List.foldl_nil, if_pos rfl]
  rfl

/-- Names lead to what is left of the place where they set out, and from there on to names among
them. -/
theorem follow_eq (here names : List String) :
    ∃ kept below, kept <+: here ∧ follow here names = kept ++ below ∧
      ∀ name ∈ below, name ∈ names := by
  induction names using List.reverseRecOn with
  | nil => exact ⟨here, [], List.prefix_refl here, (List.append_nil here).symm, by simp⟩
  | append_singleton names name ih =>
    obtain ⟨kept, below, hkept, heq, hbelow⟩ := ih
    have hmem : ∀ n ∈ below, n ∈ names ++ [name] :=
      fun n hn => List.mem_append_left _ (hbelow n hn)
    by_cases hname : name = ".."
    · rw [hname, follow_concat_back, heq]
      -- a step back takes the last of the names below, or else of the place where they set out
      rcases List.eq_nil_or_concat' below with rfl | ⟨below, last, rfl⟩
      · refine ⟨kept.dropLast, [], (List.dropLast_prefix kept).trans hkept, ?_, by simp⟩
        rw [List.append_nil, List.append_nil]
      · refine ⟨kept, below, hkept, ?_, fun n hn => hname ▸ hmem n (by simp [hn])⟩
        rw [← List.append_assoc, List.dropLast_concat]
    · refine ⟨kept, below ++ [name], hkept, ?_, ?_⟩
      · rw [follow_concat_name hname, heq, List.append_assoc]
      · exact List.forall_mem_append.mpr ⟨hmem, by simp⟩

/-- A place that is farther down than where names set out has one of them for its last name. -/
theorem exists_getLast_follow {names : List String}
    (h : here.length < (follow here names).length) :
    ∃ name ∈ names, (follow here names).getLast? = some name := by
  obtain ⟨kept, below, hkept, heq, hbelow⟩ := follow_eq here names
  rw [heq] at h ⊢
  have hne : below ≠ [] := by
    rintro rfl
    rw [List.append_nil] at h
    exact absurd hkept.length_le (by omega)
  obtain ⟨names', name, rfl⟩ := (List.eq_nil_or_concat' below).resolve_left hne
  exact ⟨name, hbelow name (by simp), by simp⟩

theorem ne_empty_of_mem_names {path name : String} (h : name ∈ names path) : name ≠ "" := by
  have hkept := (List.mem_filter.mp h).2
  rw [decide_eq_true_eq] at hkept
  exact hkept.1

end Path

/-! ### Systems of files whose paths are followed -/

/-- A system in which a path is followed step by step from the directory where the program runs,
no link leading elsewhere.  What is read depends on the place alone, and a path that ends in a
directory cannot be read. -/
structure FileSystem.Follows {σ β : Type} (fs : FileSystem σ (List String) β) (s : σ)
    (here : List String) : Prop where
  place_eq {path : String} {place : List String} : path.startsWith "/" = false →
    fs.place s path = some place → place = Path.follow here (Path.names path)
  read_eq : ∃ text : List String → Option String, ∀ path,
    ((fs.files.read path).run s).1 = (fs.place s path).bind text
  names_eq {path : String} : ((fs.files.read path).run s).1 ≠ none →
    ∃ folder name, Path.names path = folder ++ [name] ∧ name ≠ ".."

namespace FileSystem.Follows

variable {σ β : Type} {fs : FileSystem σ (List String) β} {s : σ} {here : List String}

/-- The name that a path gives to the folder of a file is that of the directory that holds the file,
unless the folder's part of the path ends in a step back. -/
theorem folderName_eq (h : fs.Follows s here) {path text : String} {place : List String}
    (hrelative : path.startsWith "/" = false) (hread : ((fs.files.read path).run s).1 = some text)
    (hplace : fs.place s path = some place) (hbelow : here.length < place.dropLast.length) :
    ∃ name, place.dropLast.getLast? = some name ∧ name ≠ "" ∧
      Path.folderName path = if Path.endsBack path then "" else name := by
  obtain ⟨folder, last, hnames, hlast⟩ := h.names_eq (by rw [hread]; exact nofun)
  have hcontainer : place.dropLast = Path.follow here folder := by
    rw [h.place_eq hrelative hplace, hnames, Path.follow_concat_name hlast, List.dropLast_concat]
  rw [hcontainer] at hbelow ⊢
  obtain ⟨name, hname, hgetLast⟩ := Path.exists_getLast_follow hbelow
  have hmem : name ∈ Path.names path := by
    rw [hnames]
    exact List.mem_append_left _ hname
  refine ⟨name, hgetLast, Path.ne_empty_of_mem_names hmem, ?_⟩
  -- where the folder's part ends in a name, that name is the last one of the place
  obtain ⟨front, d, rfl⟩ := (List.eq_nil_or_concat' folder).resolve_left (List.ne_nil_of_mem hname)
  rw [Path.folderName, Path.endsBack, hnames, List.dropLast_concat, List.getLast?_concat]
  by_cases hd : d = ".."
  · simp [hd]
  · rw [Path.follow_concat_name hd, List.getLast?_concat] at hgetLast
    obtain rfl := Option.some.inj hgetLast
    simp

end FileSystem.Follows

namespace FileTree

variable {t : FileTree} {here place steps : List String}

theorem walk_eq_follow (h : t.walk here steps = some place) :
    place = Path.follow here (steps.filter fun s => s ≠ "" ∧ s ≠ ".") := by
  induction steps generalizing here with
  | nil => exact (Option.some.inj h).symm
  | cons step rest ih =>
    rw [walk] at h
    split_ifs at h with hdirectory hstay hback hroot
    · rw [List.filter_cons_of_neg (by rcases hstay with rfl | rfl <;> simp)]
      exact ih h
    · rw [List.filter_cons_of_pos (by simp [hback]), Path.follow, List.foldl_cons, if_pos hback]
      exact ih h
    · rw [List.filter_cons_of_pos (by simpa using hstay), Path.follow, List.foldl_cons,
        if_neg hback]
      exact ih h

/-- Steps from a directory to a place that is none end in a name. -/
theorem names_of_walk (hhere : t.isDirectory here = true) (h : t.walk here steps = some place)
    (hfile : t.isDirectory place = false) :
    ∃ folder name, (steps.filter fun s => s ≠ "" ∧ s ≠ ".") = folder ++ [name] ∧ name ≠ ".." := by
  induction steps generalizing here with
  | nil =>
    obtain rfl : here = place := Option.some.inj h
    rw [hhere] at hfile
    cases hfile
  | cons step rest ih =>
    rw [walk, if_pos hhere] at h
    -- a step stays in its directory, leads out of it, or leads further in
    split_ifs at h with hstay hback hroot
    · rw [List.filter_cons_of_neg (by rcases hstay with rfl | rfl <;> simp)]
      exact ih hhere h
    · obtain ⟨folder, name, hnames, hname⟩ :=
        ih (isDirectory_above hhere (List.dropLast_prefix here)) h
      rw [List.filter_cons_of_pos (by simp [hback]), hnames]
      exact ⟨step :: folder, name, rfl, hname⟩
    · rw [List.filter_cons_of_pos (by simpa using hstay)]
      by_cases hinner : t.isDirectory (here ++ [step]) = true
      · obtain ⟨folder, name, hnames, hname⟩ := ih hinner h
        rw [hnames]
        exact ⟨step :: folder, name, rfl, hname⟩
      · -- nothing is below a file
        cases rest with
        | nil => exact ⟨[], step, rfl, hback⟩
        | cons =>
          rw [walk, if_neg hinner] at h
          cases h

/-- Paths are followed in a tree none of whose files is a directory. -/
theorem follows (hfiles : ∀ f ∈ t.files, t.isDirectory f.1 = false) : system.Follows t [] where
  place_eq {path place} _ h := by
    replace h : t.resolve path = some place := h
    rw [resolve] at h
    split_ifs at h
    exact walk_eq_follow h
  read_eq := ⟨fun place => t.files.lookup place, fun _ => rfl⟩
  names_eq {path} h := by
    obtain ⟨text, htext⟩ := Option.ne_none_iff_exists'.mp h
    replace htext : (t.resolve path).bind (t.files.lookup ·) = some text := htext
    obtain ⟨place, hplace, hlookup⟩ := Option.bind_eq_some_iff.mp htext
    rw [resolve] at hplace
    split_ifs at hplace
    obtain ⟨before, after, hmem, -⟩ := List.lookup_eq_some_iff.mp hlookup
    exact names_of_walk rfl hplace (hfiles (place, text) (by simp [hmem]))

end FileTree

/-! ### Runs -/

namespace CommandLine

variable {σ β : Type} {fs : FileSystem σ (List String) β} {s : σ} {here : List String}

variable (fs s) in
/-- The run is the one that is told by the arguments what the path gives. -/
theorem run_modInfo_told (choices : Choices) {args : List String} {verbose : Bool} {path locale told : String}
    {output : Option String}
    (hrequest : Request.ofArguments args = .ok (.run verbose (.modInfo path locale none output)))
    (htold : Path.folderName path = told) :
    (run choices fs.files args).run s =
      ((Command.modInfo path locale (some told) output).run choices fs.files verbose).run s := by
  rw [run_of_request fs s choices hrequest, ← htold]
  rfl

/-- What is printed of a file does not depend on its path once the script is told its folder. -/
theorem run_modInfo_congr (choices : Choices) {path path' locale folder text : String}
    (verbose verbose' : Bool)
    (hread : ((fs.files.read path).run s).1 = some text)
    (hread' : ((fs.files.read path').run s).1 = some text) :
    let report :=
      (((Command.modInfo path locale (some folder) none).run choices fs.files verbose).run s).1
    let report' :=
      (((Command.modInfo path' locale (some folder) none).run choices fs.files verbose').run s).1
    report'.code = report.code ∧ report'.stdout = report.stdout := by
  simp only [run_command, Command.file, hread, hread', Command.output, Command.result,
    Command.document, Option.getD_some]
  cases (ModInfo.parse _ text choices).result <;> exact ⟨rfl, rfl⟩

/-- A script that is told no folder name by the arguments finds the name of the directory that holds
its file, if that lies below the directory where the program runs and the folder's part of the path
does not end in a step back; if it does, the script finds an empty name.  The run is the one that is
told so by the arguments.  Two paths that lead to one file print the same if both end their folder's
part in a step back, or none does, and the interpreter of scripts makes the same choices. -/
theorem modInfo_folderName (h : fs.Follows s here) (choices : Choices) {args : List String} {verbose : Bool}
    {path locale text : String} {output : Option String} {place : List String}
    (hrequest : Request.ofArguments args = .ok (.run verbose (.modInfo path locale none output)))
    (hrelative : path.startsWith "/" = false) (hread : ((fs.files.read path).run s).1 = some text)
    (hplace : fs.place s path = some place)
    (hbelow : ∃ below, below ≠ [] ∧ place.dropLast = here ++ below) :
    ∃ name told, place.dropLast.getLast? = some name ∧ name ≠ "" ∧
      told = (if Path.endsBack path then "" else name) ∧
      Sandbox.initialGlobal { folderName := told, locale := locale } choices
          Sandbox.folderNameKey = .ofString told ∧
      (run choices fs.files args).run s =
        ((Command.modInfo path locale (some told) output).run choices fs.files verbose).run s ∧
      ∀ args' verbose' path', output = none →
        Request.ofArguments args' = .ok (.run verbose' (.modInfo path' locale none none)) →
        path'.startsWith "/" = false → fs.place s path' = some place →
        Path.endsBack path' = Path.endsBack path →
        let report := ((run choices fs.files args).run s).1
        let report' := ((run choices fs.files args').run s).1
        report'.code = report.code ∧ report'.stdout = report.stdout := by
  have hdeeper : here.length < place.dropLast.length := by
    obtain ⟨below, hne, heq⟩ := hbelow
    have := List.length_pos_iff.mpr hne
    rw [heq, List.length_append]
    omega
  obtain ⟨name, hname, hne, htold⟩ := h.folderName_eq hrelative hread hplace hdeeper
  have hrun := run_modInfo_told fs s choices hrequest htold
  refine ⟨name, _, hname, hne, rfl, Sandbox.initialGlobal_folderName _ choices, hrun, ?_⟩
  rintro args' verbose' path' rfl hrequest' hrelative' hplace' hends
  obtain ⟨texts, htexts⟩ := h.read_eq
  have hread' : ((fs.files.read path').run s).1 = some text := by
    rw [htexts, hplace', ← hplace, ← htexts, hread]
  -- the place is the same, hence the name of the directory is
  obtain ⟨name', hname', -, htold'⟩ := h.folderName_eq hrelative' hread' hplace' hdeeper
  obtain rfl : name = name' := Option.some.inj (hname.symm.trans hname')
  rw [hends] at htold'
  rw [hrun, run_modInfo_told fs s choices hrequest' htold']
  exact run_modInfo_congr choices verbose verbose' hread hread'

/-- A mod in a directory that has another one in it. -/
def modTree : FileTree :=
  ⟨[(["a", "b", "x"], ""),
    (["a", "modinfo.lua"], "name = folder_name\nconfiguration_options = \x7b\x7d\n")]⟩

theorem follows_modTree : FileTree.system.Follows modTree [] :=
  FileTree.follows (by decide)

/-- Steps back that the folder's part of a path does not end in do no harm. -/
theorem modInfo_folderName_roundabout :
    modTree.resolve "./a/b/../../a//modinfo.lua" = some ["a", "modinfo.lua"] ∧
      runIn modTree ["modinfo", "./a/b/../../a//modinfo.lua"] =
        ((Command.modInfo "./a/b/../../a//modinfo.lua" "" (some "a") none).run {} treeFiles
          false).run modTree ∧
      Sandbox.initialGlobal { folderName := "a" } {} Sandbox.folderNameKey = .ofString "a" ∧
      (runIn modTree ["modinfo", "a/modinfo.lua"]).1.stdout =
        (runIn modTree ["modinfo", "./a/b/../../a//modinfo.lua"]).1.stdout := by
  have hplace : modTree.resolve "./a/b/../../a//modinfo.lua" = some ["a", "modinfo.lua"] := by
    decide +kernel
  have hrequest : Request.ofArguments ["modinfo", "./a/b/../../a//modinfo.lua"] =
      .ok (.run false (.modInfo "./a/b/../../a//modinfo.lua" "" none none)) := by decide
  have hrequest' : Request.ofArguments ["modinfo", "a/modinfo.lua"] =
      .ok (.run false (.modInfo "a/modinfo.lua" "" none none)) := by decide
  have hread : ((treeFiles.read "./a/b/../../a//modinfo.lua").run modTree).1 =
      some "name = folder_name\nconfiguration_options = \x7b\x7d\n" := by decide +kernel
  obtain ⟨name, told, hname, -, htold, hglobal, hrun, hspellings⟩ := modInfo_folderName
    follows_modTree {} hrequest (by decide +kernel) hread hplace ⟨["a"], by decide, rfl⟩
  obtain rfl : "a" = name := Option.some.inj hname
  obtain rfl : told = "a" := htold
  exact ⟨hplace, hrun, hglobal, (hspellings _ _ _ rfl hrequest' (by decide +kernel)
    (by decide +kernel) (by decide +kernel)).2⟩

/-- A path whose folder's part ends in a step back tells the script nothing of its folder. -/
theorem modInfo_folderName_back :
    Request.ofArguments ["modinfo", "a/b/../modinfo.lua"] =
        .ok (.run false (.modInfo "a/b/../modinfo.lua" "" none none)) ∧
      (modTree.read "a/b/../modinfo.lua").isSome = true ∧
      modTree.resolve "a/b/../modinfo.lua" = some ["a", "modinfo.lua"] ∧
      runIn modTree ["modinfo", "a/b/../modinfo.lua"] =
        ((Command.modInfo "a/b/../modinfo.lua" "" (some "") none).run {} treeFiles
          false).run modTree ∧
      Sandbox.initialGlobal { folderName := "" } {} Sandbox.folderNameKey ≠ .ofString "a" := by
  have hrequest : Request.ofArguments ["modinfo", "a/b/../modinfo.lua"] =
      .ok (.run false (.modInfo "a/b/../modinfo.lua" "" none none)) := by decide
  refine ⟨hrequest, by decide +kernel, by decide +kernel, ?_, ?_⟩
  · exact run_modInfo_told FileTree.system modTree {} hrequest (by decide)
  · rw [Sandbox.initialGlobal_folderName]
    decide

end CommandLine

end LuaConfig
