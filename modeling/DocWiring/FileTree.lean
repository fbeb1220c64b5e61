import DocWiring.Error
import DocWiring.OrderedMap
import DocWiring.Sorting

/-! # File trees

A file tree knows the content of every file below its root, the folders that are there beside those
on the way to a file, and the folder that relative paths start from.  What the content of a file is
stays open.
-/

namespace DocWiring

/-- The names on the way from the root to a place. -/
abbrev Location := List String

structure FileTree (α : Type) where
  files : OrderedMap Location α
  folders : List Location
  here : Location

namespace FileTree

variable {α : Type}

/-- A tree with nothing in it but the folder that relative paths start from. -/
def empty (here : Location) : FileTree α where
  files := OrderedMap.empty
  folders := [here]
  here := here

inductive Entry (α : Type) where
  | file (content : α)
  | folder

/-- The place is the root, or a folder lies there or below, or a file lies below. -/
def isFolder (t : FileTree α) (place : Location) : Bool :=
  place.isEmpty || t.folders.any place.isPrefixOf ||
    t.files.keys.any fun f => place.isPrefixOf f && f != place

def find? (t : FileTree α) (place : Location) : Option (Entry α) :=
  match t.files.find? place with
  | some content => some (.file content)
  | none => if t.isFolder place then some .folder else none

/-- Goes on from a place by one piece of a path.  An empty piece and a dot stay, two dots go back,
and each of them needs a folder to go on from. -/
def step (t : FileTree α) (place : Location) (piece : String) : Except OsError Location :=
  match t.find? place with
  | none => .error .notFound
  | some (.file _) => .error .notADirectory
  | some .folder =>
    if piece = "" ∨ piece = "." then .ok place
    else if piece = ".." then .ok place.dropLast
    else .ok (place ++ [piece])

def walk (t : FileTree α) (place : Location) : List String → Except OsError Location
  | [] => .ok place
  | piece :: rest => do t.walk (← t.step place piece) rest

def piecesOf (p : Path) : List String :=
  (Text.pieces '/' p.text.toList).map String.ofList

def startOf (t : FileTree α) (p : Path) : Location :=
  if p.text.toList.head? = some '/' then [] else t.here

/-- The place that a path leads to, whether or not something is there. -/
def locate (t : FileTree α) (p : Path) : Except OsError Location :=
  if p.text = "" then .error .notFound
  else t.walk (t.startOf p) (piecesOf p)

/-- The place of what a path names, and what is there. -/
def resolve (t : FileTree α) (p : Path) : Except OsError (Location × Entry α) := do
  let place ← t.locate p
  match t.find? place with
  | some e => return (place, e)
  | none => throw .notFound

/-- Something is where the path leads. -/
def contains (t : FileTree α) (p : Path) : Bool :=
  (t.resolve p).isOk

def read (t : FileTree α) (p : Path) : Except OsError α := do
  match ← t.resolve p with
  | (_, .file content) => return content
  | (_, .folder) => throw .isADirectory

/-- The pieces of a path without the slashes at its end. -/
def unslashedPieces (p : Path) : List String :=
  ((piecesOf p).reverse.dropWhile (· = "")).reverse

/-- The path can name nothing but a folder: it ends in a slash, or its last piece is dots. -/
def namesFolder (p : Path) : Bool :=
  match (piecesOf p).getLast? with
  | some piece => piece = "" ∨ piece = "." ∨ piece = ".."
  | none => true

/-- The place of a file that may be written.  Its folder has to be there. -/
def writable (t : FileTree α) (p : Path) : Except OsError Location := do
  if p.text = "" then throw .notFound
  let place ← t.walk (t.startOf p) (unslashedPieces p)
  if namesFolder p then throw .isADirectory
  match t.find? place with
  | some .folder => throw .isADirectory
  | _ => return place

/-- Sets the content of the file at a place. -/
def put (t : FileTree α) (place : Location) (content : α) : FileTree α :=
  { t with files := t.files.insert place content }

def write (t : FileTree α) (p : Path) (content : α) : Except OsError (FileTree α) := do
  return t.put (← t.writable p) content

def addFolder (t : FileTree α) (place : Location) : FileTree α :=
  { t with folders := t.folders ++ [place] }

/-- Names in order, a shorter way before its extensions. -/
def before : Location → Location → Bool
  | [], _ => true
  | _ :: _, [] => false
  | a :: as, b :: bs => a < b || (a == b && before as bs)

/-- The files below a folder as the names that lead there from it.  The entries of every folder
come in the order of their names. -/
def below (t : FileTree α) (folder : Location) : List Location :=
  sortBy before
    ((t.files.keys.filter fun f => folder.isPrefixOf f && f != folder).map
      (·.drop folder.length))

end FileTree

end DocWiring
