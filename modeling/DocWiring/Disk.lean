import DocWiring.FileTree

/-! # Disks

What a program may ask of the place its files are kept in.  A file tree is such a place.
-/

namespace DocWiring

/-- Files that can be read, written and listed.  The survey of some paths is a tree that agrees with
the disk on what lies at these paths and below them. -/
structure Disk (m : Type → Type) where
  read : Path → m (Except OsError ByteArray)
  write : Path → ByteArray → m (Except OsError Unit)
  survey : List Path → m (FileTree Unit)

namespace FileTree

/-- The tree without the contents of its files. -/
def skeleton (t : FileTree ByteArray) : FileTree Unit where
  files := OrderedMap.ofList (t.files.keys.map fun place => (place, ()))
  folders := t.folders
  here := t.here

def disk : Disk (StateM (FileTree ByteArray)) where
  read p := do return (← get).read p
  write p bytes := do
    match (← get).write p bytes with
    | .ok t => do
      set t
      return .ok ()
    | .error cause => return .error cause
  survey _ := do return (← get).skeleton

end FileTree

end DocWiring
