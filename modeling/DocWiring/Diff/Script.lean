/-! # Edit scripts

A script goes through two lists at once.  It is made of runs of elements that both lists have, that
only the old one has, or that only the new one has.
-/

namespace DocWiring.Diff

variable {α : Type}

inductive Run (α : Type) where
  | keep (xs : List α)
  | drop (xs : List α)
  | add (xs : List α)
deriving DecidableEq, Repr

namespace Run

/-- The elements that the run takes from the old list. -/
def old : Run α → List α
  | .keep xs => xs
  | .drop xs => xs
  | .add _ => []

/-- The elements that the run gives to the new list. -/
def new : Run α → List α
  | .keep xs => xs
  | .drop _ => []
  | .add xs => xs

end Run

/-- The list that a script starts from. -/
def oldSide (script : List (Run α)) : List α :=
  script.flatMap Run.old

/-- The list that a script leads to. -/
def newSide (script : List (Run α)) : List α :=
  script.flatMap Run.new

/-- A run that keeps elements, unless there are none. -/
def keeping (xs : List α) : List (Run α) :=
  if xs.isEmpty then [] else [.keep xs]

variable [DecidableEq α]

def commonStart : List α → List α → List α
  | a :: as, b :: bs => if a = b then a :: commonStart as bs else []
  | _, _ => []

def commonEnd (as bs : List α) : List α :=
  (commonStart as.reverse bs.reverse).reverse

end DocWiring.Diff
