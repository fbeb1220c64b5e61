import DocWiring.Cli.Program

/-! # Command line

The program on the files of the machine.
-/

namespace DocWiring

/-- The cause behind an error of the operating system. -/
def OsError.ofIO : IO.Error → OsError
  | .noFileOrDirectory .. => .notFound
  | .inappropriateType _ code details =>
    if code = 20 then .notADirectory
    else if code = 21 then .isADirectory
    else .other details
  | e => .other (toString e)

/-- Runs an action, an error being its answer as well. -/
def attempt {α : Type} (action : IO α) : IO (Except OsError α) := do
  try return .ok (← action)
  catch e => return .error (.ofIO e)

/-- The place of a path, dots resolved, when relative paths start from `here`. -/
def placeOn (here : Location) (p : String) : Location :=
  let start := if p.toList.head? = some '/' then [] else here
  (FileTree.piecesOf ⟨p⟩).foldl (fun place piece =>
    if piece = "" ∨ piece = "." then place
    else if piece = ".." then place.dropLast
    else place ++ [piece]) start

/-- The texts of a path up to each of its slashes, and the whole path. -/
def stages (p : String) : List String :=
  let pieces := FileTree.piecesOf ⟨p⟩
  (List.range pieces.length).map fun n => String.intercalate "/" (pieces.take (n + 1))

/-- Adds what lies at a path to a tree. -/
def addEntry (here : Location) (t : FileTree Unit) (p : String) : IO (FileTree Unit) := do
  match ← attempt ((← IO.currentDir) / p).metadata with
  | .error _ => return t
  | .ok found =>
    match found.type with
    | .dir => return t.addFolder (placeOn here p)
    | .file => return t.put (placeOn here p) ()
    | _ => return t

/-- Adds what lies below a folder to a tree.  Links are not followed. -/
partial def addBelow (here : Location) (t : FileTree Unit) (folder : String) :
    IO (FileTree Unit) := do
  match ← attempt ((← IO.currentDir) / folder).readDir with
  | .error _ => return t
  | .ok entries =>
    let mut tree := t
    for e in entries do
      let p := folder ++ "/" ++ e.fileName
      match ← attempt e.path.symlinkMetadata with
      | .error _ => pure ()
      | .ok found =>
        if found.type == .file then tree := tree.put (placeOn here p) ()
        else if found.type == .dir then
          tree ← addBelow here (tree.addFolder (placeOn here p)) p
    return tree

/-- What lies at some paths, on the way to them, and below them. -/
def surveyMachine (paths : List Path) : IO (FileTree Unit) := do
  let here := placeOn [] (← IO.currentDir).toString
  let mut tree := FileTree.empty here
  for p in paths do
    for stage in stages p.text do
      tree ← addEntry here tree stage
    tree ← addBelow here tree p.text
  return tree

def machine : Disk IO where
  read p := do attempt (IO.FS.readBinFile ((← IO.currentDir) / p.text))
  write p bytes := do attempt (IO.FS.writeBinFile ((← IO.currentDir) / p.text) bytes)
  survey := surveyMachine

def workersVariable : String := "CAKE_MAGIC_WORKERS"

def filterVariable : String := "RUST_LOG"

end DocWiring

open DocWiring

/-- Answers the arguments on the files of the machine. -/
def main (args : List String) : IO UInt32 := do
  let response ←
    match Cli.invocationOf args (← IO.getEnv workersVariable) with
    | .error stop => pure stop.response
    | .ok invocation => Cli.execute machine invocation (← IO.getEnv filterVariable)
  IO.print (String.ofList response.output)
  IO.eprint (String.ofList response.errors)
  return UInt32.ofNat response.exit
