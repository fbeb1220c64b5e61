import DocWiring.Diff.Script

/-! # Compact scripts

A run that adds or drops is moved along the elements that are kept, as long as the lists stay the
same, to bring it together with other runs of its kind: first up as far as it goes, then down.
-/

namespace DocWiring.Diff

variable {α : Type} [DecidableEq α]

/-- A run of a script, with the runs before it, nearest first, and those after it. -/
structure Focus (α : Type) where
  before : List (Run α)
  run : Run α
  after : List (Run α)

namespace Focus

def keepAfter (xs : List α) : List (Run α) → List (Run α)
  | .keep ys :: rest => .keep (xs ++ ys) :: rest
  | rest => .keep xs :: rest

def keepBefore (xs : List α) : List (Run α) → List (Run α)
  | .keep ys :: rest => .keep (ys ++ xs) :: rest
  | rest => .keep xs :: rest

def up? (f : Focus α) : Option (Focus α) :=
  match f.run, f.before with
  | .add ys, .keep xs :: rest =>
    let shared := commonEnd xs ys
    if shared.isEmpty then
      if xs.isEmpty then some { f with before := rest } else none
    else
      some {
        before := keeping (xs.take (xs.length - shared.length)) ++ rest
        run := .add (shared ++ ys.take (ys.length - shared.length))
        after := keepAfter shared f.after }
  | .drop _, .keep xs :: rest => if xs.isEmpty then some { f with before := rest } else none
  | .add ys, .add xs :: rest => some { f with before := rest, run := .add (xs ++ ys) }
  | .drop ys, .drop xs :: rest => some { f with before := rest, run := .drop (xs ++ ys) }
  | .add _, r :: rest => some { f with before := rest, after := r :: f.after }
  | .drop _, r :: rest => some { f with before := rest, after := r :: f.after }
  | _, _ => none

def down? (f : Focus α) : Option (Focus α) :=
  match f.run, f.after with
  | .add ys, .keep zs :: rest =>
    let shared := commonStart zs ys
    if shared.isEmpty then
      if zs.isEmpty then some { f with after := rest } else none
    else
      some {
        before := keepBefore shared f.before
        run := .add (ys.drop shared.length ++ shared)
        after := keeping (zs.drop shared.length) ++ rest }
  | .drop _, .keep zs :: rest => if zs.isEmpty then some { f with after := rest } else none
  | .add ys, .add zs :: rest => some { f with after := rest, run := .add (ys ++ zs) }
  | .drop ys, .drop zs :: rest => some { f with after := rest, run := .drop (ys ++ zs) }
  | .add _, r :: rest => some { f with before := r :: f.before, after := rest }
  | .drop _, r :: rest => some { f with before := r :: f.before, after := rest }
  | _, _ => none

def moveAll (move? : Focus α → Option (Focus α)) : Nat → Focus α → Focus α
  | 0, f => f
  | fuel + 1, f =>
    match move? f with
    | some g => moveAll move? fuel g
    | none => f

end Focus

/-- More moves than a script has places. -/
def moves (script : List (Run α)) : Nat :=
  script.length + (oldSide script).length + (newSide script).length + 1

/-- Moves every run that `moved` picks up and down, from the first run on. -/
def settle (moved : Run α → Bool) : Nat → List (Run α) → List (Run α) → List (Run α)
  | 0, before, after => before.reverse ++ after
  | _ + 1, before, [] => before.reverse
  | fuel + 1, before, r :: after =>
    if moved r then
      let n := moves (before ++ r :: after)
      let f := (Focus.moveAll Focus.up? n ⟨before, r, after⟩)
      let g := Focus.moveAll Focus.down? n f
      settle moved fuel (g.run :: g.before) g.after
    else settle moved fuel (r :: before) after

def isDrop : Run α → Bool
  | .drop _ => true
  | _ => false

def isAdd : Run α → Bool
  | .add _ => true
  | _ => false

/-- Settles the runs that drop, then those that add. -/
def compact (script : List (Run α)) : List (Run α) :=
  let n := moves script * moves script
  settle isAdd n [] (settle isDrop n [] script)

end DocWiring.Diff
