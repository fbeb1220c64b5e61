import DocWiring.Text.Search

/-! # Paths

A path is kept as it was spelled, since it is shown that way.  Two paths are the same when their
parts agree: doubled slashes, a slash at the end and a dot that is not the first part make no
difference, while a first dot and a double dot do.
-/

namespace DocWiring

/-- A path as it was spelled. -/
structure Path where
  text : String
deriving DecidableEq, Repr

namespace Path

inductive Part where
  | root
  | here
  | up
  | name (chars : List Char)
deriving DecidableEq, Repr

/-- The part that a piece between slashes stands for; an empty piece and a dot stand for none. -/
def partOfPiece? (piece : List Char) : Option Part :=
  if piece = [] then none
  else if piece = ['.'] then none
  else if piece = ['.', '.'] then some .up
  else some (.name piece)

/-- The parts of a path, by which paths are compared. -/
def parts (p : Path) : List Part :=
  let ps := Text.pieces '/' p.text.toList
  let rest := ps.filterMap partOfPiece?
  if p.text.toList.head? = some '/' then .root :: rest
  else if ps.head? = some ['.'] then .here :: rest
  else rest

def same (p q : Path) : Bool :=
  p.parts = q.parts

theorem same_iff {p q : Path} : p.same q = true ↔ p.parts = q.parts := by
  simp [same]

/-- The last part, when it is a name. -/
def fileName? (p : Path) : Option (List Char) :=
  match p.parts.getLast? with
  | some (.name n) => some n
  | _ => none

/-- What follows the last dot of the file name, unless the name only starts with that dot. -/
def extension? (p : Path) : Option (List Char) :=
  match p.fileName? with
  | none => none
  | some n =>
    match Text.cutLast? ['.'] n with
    | some (_ :: _, after) => some after
    | _ => none

def join (dir : Path) (entry : String) : Path :=
  if dir.text.toList.getLast? = some '/' then ⟨dir.text ++ entry⟩
  else ⟨dir.text ++ "/" ++ entry⟩

end Path

end DocWiring
