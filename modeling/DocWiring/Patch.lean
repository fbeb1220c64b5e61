import DocWiring.Sorting
import DocWiring.Source.Unit

/-! # Patches

A patch replaces a run of lines, counted from zero in the file as it was before any patch.  The
patches of one file are applied together; they may touch but not overlap.
-/

namespace DocWiring

/-- Replaces `count` lines from line `start` on. -/
structure Patch where
  start : Nat
  count : Nat
  replacement : List Line
deriving DecidableEq, Repr

namespace Patch

def stop (p : Patch) : Nat :=
  p.start + p.count

/-- By how many lines the file grows. -/
def delta (p : Patch) : Int :=
  (p.replacement.length : Int) - (p.count : Int)

/-- The patches in the order of their first lines; patches with the same first line keep theirs. -/
def inOrder (ps : List Patch) : List Patch :=
  sortBy (fun p q => p.start ≤ q.start) ps

/-- The first patch that starts before `covered` or before the end of an earlier patch, or that
ends after the last line. -/
def misplaced? (fileLength : Nat) : Nat → List Patch → Option Patch
  | _, [] => none
  | covered, p :: ps =>
    if p.start < covered ∨ fileLength < p.stop then some p
    else misplaced? fileLength p.stop ps

/-- Replaces the lines of a patch, which have moved down by `offset`. -/
def edit (offset : Int) (p : Patch) (lines : List Line) : List Line :=
  let place := ((p.start : Int) + offset).toNat
  lines.take place ++ p.replacement ++ lines.drop (place + p.count)

/-- Applies patches one after the other to the same lines, which have moved down by `offset` already. -/
def editAll : Int → List Patch → List Line → List Line
  | _, [], lines => lines
  | offset, p :: ps, lines => editAll (offset + p.delta) ps (edit offset p lines)

/-- Applies patches in the order of their first lines, or none of them if one is misplaced. -/
def applyAll (u : SourceUnit) (ps : List Patch) : Except Error SourceUnit :=
  if ps.isEmpty then .ok u
  else
    let ordered := inOrder ps
    match misplaced? u.lines.length 0 ordered with
    | some p => .error (.structural (.misplacedPatch p.start p.stop u.lines.length))
    | none => .ok { u with lines := editAll 0 ordered u.lines }

theorem applyAll_nil (u : SourceUnit) : applyAll u [] = .ok u :=
  rfl

end Patch

end DocWiring
