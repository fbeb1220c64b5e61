import DocWiring.Run.FileResult

/-! # Runs over files

A run reads all files, fills the class index in their order, and then brings each file up to date
with the full index.  A file that cannot be read or parsed is left out.
-/

namespace DocWiring

/-- What a run has found: the files as they were read, the full index with the clashes met on the
way, and what becomes of every file with its classes. -/
structure Run where
  dryRun : Bool
  parsed : List (Path × Except Error ParsedFile)
  index : ClassIndex
  clashes : List Event
  results : List FileResult

namespace Run

abbrev Input := Path × Except OsError ByteArray

/-- The file that was read, with its classes.  An empty file has none. -/
def parse (s : Setup) (input : Input) : Except Error ParsedFile :=
  match input.2 with
  | .error cause => .error (.io (.os cause))
  | .ok bytes =>
    let source := SourceUnit.ofBytes bytes
    if source.lines.isEmpty then .ok ⟨input.1, source, []⟩
    else (s.provider input.1 source).map fun classes => ⟨input.1, source, classes⟩

/-- What is told when a file has been parsed. -/
def parseEvent? : Except Error ParsedFile → Option Event
  | .ok file =>
    if !file.source.lines.isEmpty && file.classes.isEmpty then some (.noClassesIn file.path)
    else none
  | .error _ => none

/-- The failure of a file that could not be read or parsed. -/
def parseFailure? (parsed : Path × Except Error ParsedFile) : Option Failure :=
  match parsed.2 with
  | .ok _ => none
  | .error e => some ⟨parsed.1, none, e⟩

def fileEvent (f : Failure) : Event :=
  .fileFailed f.path f.error

/-- The classes of files that go into the index, with the paths they are declared in. -/
def declared (files : List ParsedFile) : List (String × ClassEntry) :=
  files.flatMap fun file =>
    file.classes.filterMap fun cls =>
      cls.parent.map fun parent => (cls.name, ⟨parent, file.path, cls.startLine⟩)

/-- Fills an index, and tells of the classes whose names are taken. -/
def fillIndex : ClassIndex → List (String × ClassEntry) → ClassIndex × List Event
  | index, [] => (index, [])
  | index, (name, entry) :: rest =>
    let (taken, next) := index.register name entry
    let (filled, events) := fillIndex next rest
    match taken with
    | some first => (filled, .duplicateClass name entry.path entry.line first :: events)
    | none => (filled, events)

/-- What is told when there are files but no class in any of them. -/
def emptinessEvents (files : List ParsedFile) : List Event :=
  if !files.isEmpty && files.all fun f => f.classes.isEmpty then [.noClasses files.length] else []

def resultsOf (s : Setup) (index : ClassIndex) : List ParsedFile → Except Error (List FileResult)
  | [] => .ok []
  | file :: rest => do
    let r ← FileResult.ofFile s index file
    return r :: (← resultsOf s index rest)

/-- The files that could be read and parsed. -/
def ready (parsed : List (Path × Except Error ParsedFile)) : List ParsedFile :=
  parsed.filterMap fun p => p.2.toOption

/-- A run over files that have been read. -/
def plan (s : Setup) (inputs : List Input) : Except Error Run := do
  let parsed := inputs.map fun i => (i.1, parse s i)
  let (index, clashes) := fillIndex ClassIndex.empty (declared (ready parsed))
  return ⟨s.dryRun, parsed, index, clashes, ← resultsOf s index (ready parsed)⟩

/-- The report of a run: files that could not be read or parsed fail first. -/
def report (r : Run) : RunReport where
  filesScanned := r.parsed.length
  classesIndexed := r.index.size
  changes := r.results.filterMap FileResult.change?
  failures := r.parsed.filterMap parseFailure? ++ r.results.flatMap FileResult.failures

def events (r : Run) : List Event :=
  r.parsed.filterMap (fun p => parseEvent? p.2) ++
    (r.parsed.filterMap parseFailure?).map fileEvent ++ emptinessEvents (ready r.parsed) ++
    r.clashes ++ [.indexBuilt r.index.size (ready r.parsed).length] ++
    r.results.flatMap (FileResult.events r.dryRun)

end Run

end DocWiring
