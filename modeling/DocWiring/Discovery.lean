import DocWiring.FileFilter
import DocWiring.FileTree

/-! # Finding files

The sources of a run are files and folders.  A file that is named is always taken; the files below
a folder are taken as the filter says.  A file that is reached twice is kept once, under the path
it was first reached by.
-/

namespace DocWiring

/-- A path and the place it leads to. -/
structure FoundFile where
  path : Path
  place : Location
deriving DecidableEq, Repr

namespace Discovery

variable {α : Type}

/-- Adds a file unless it has been found before. -/
def add (found : List FoundFile) (f : FoundFile) : List FoundFile :=
  if found.any fun g => g.place = f.place then found else found ++ [f]

/-- The path relative to a folder that names lead to. -/
def relativeText (names : List String) : String :=
  String.intercalate "/" names

/-- The files below a folder that the filter takes. -/
def taken (t : FileTree α) (filter : FileFilter) (source : Path) (folder : Location) :
    List FoundFile :=
  ((t.below folder).filter fun names => filter.accepts (relativeText names)).map fun names =>
    ⟨source.join (relativeText names), folder ++ names⟩

/-- The files that a source stands for. -/
def ofSource (t : FileTree α) (filter : FileFilter) (source : Path) :
    Except Error (List FoundFile) :=
  match t.resolve source with
  | .error cause => .error (.io (.atPath source cause))
  | .ok (place, .file _) => .ok [⟨source, place⟩]
  | .ok (place, .folder) => .ok (taken t filter source place)

/-- The files of all sources, each once. -/
def collect (t : FileTree α) (filter : FileFilter) :
    List FoundFile → List Path → Except Error (List FoundFile)
  | found, [] => .ok found
  | found, source :: rest => do
    collect t filter ((← ofSource t filter source).foldl add found) rest

def discover (t : FileTree α) (c : Config) (sources : List Path) : Except Error (List Path) := do
  let filter ← FileFilter.ofConfig c
  return (← collect t filter [] sources).map (·.path)

end Discovery

end DocWiring
