/-
Paths and the files they lead to.

A path is followed step by step from the directory where the program runs; `.` stays and `..` goes
back, and every step but the last needs a directory.  Directories are there as far as files are in
them.  Nothing above the first directory can be reached.
-/

namespace LuaConfig

namespace Path

/-- The steps of a path. -/
def steps (path : String) : List String := (path.toList.splitOn '/').map String.ofList

/-- The steps of a path that lead anywhere. -/
def names (path : String) : List String :=
  (steps path).filter fun s => s ≠ "" ∧ s ≠ "."

/-- The name of the folder that a path names for its file, empty where it names none. -/
def folderName (path : String) : String :=
  match (names path).dropLast.getLast? with
  | some name => if name = ".." then "" else name
  | none => ""

end Path

/-- Files by the names that lead to them. -/
structure FileTree where
  files : List (List String × String) := []
  deriving DecidableEq

namespace FileTree

/-- Is there a directory? -/
def isDirectory (t : FileTree) (place : List String) : Bool :=
  place.isEmpty || t.files.any fun (p, _) => place.length < p.length && place.isPrefixOf p

/-- Where steps lead. -/
def walk (t : FileTree) : (here : List String) → List String → Option (List String)
  | here, [] => some here
  | here, step :: rest =>
    if t.isDirectory here then
      if step = "" ∨ step = "." then walk t here rest
      else if step = ".." then
        if here.isEmpty then none else walk t here.dropLast rest
      else walk t (here ++ [step]) rest
    else none

/-- The place that a path leads to. -/
def resolve (t : FileTree) (path : String) : Option (List String) :=
  if path.isEmpty ∨ path.startsWith "/" then none else t.walk [] (Path.steps path)

/-- The content of a file. -/
def read (t : FileTree) (path : String) : Option String :=
  (t.resolve path).bind fun place => t.files.lookup place

/-- Puts a file where it is, or in front of all others. -/
def put (place : List String) (content : String) :
    List (List String × String) → List (List String × String)
  | [] => [(place, content)]
  | (p, c) :: rest => if p = place then (p, content) :: rest else (p, c) :: put place content rest

/-- Writes a file.  Its directory has to be there. -/
def write (t : FileTree) (path content : String) : Option FileTree := do
  let place ← t.resolve path
  if t.isDirectory place then none else some ⟨put place content t.files⟩

/-- The tree that holds the given files, with the directories they need. -/
def ofList (files : List (String × String)) : FileTree :=
  ⟨files.map fun (path, content) => (Path.names path, content)⟩

end FileTree

end LuaConfig
