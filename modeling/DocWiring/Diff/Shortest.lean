import DocWiring.Diff.Script

/-! # Shortest scripts

A shortest script is found by searching from both ends of two lists at once.  After `d` edits the
search knows for every diagonal, which is the number of old elements less the number of new
elements passed, how many old elements can be passed at most.  Where the two searches meet, the
lists are cut and both parts are solved on their own.
-/

namespace DocWiring.Diff

variable {α : Type} [DecidableEq α]

/-- The farthest reach on every diagonal. -/
structure Reach where
  size : Nat
  cells : Array Nat

namespace Reach

/-- A search that has not begun: on the first diagonal nothing is passed. -/
def start (size : Nat) : Reach :=
  ⟨size, Array.replicate (2 * size + 2) 0⟩

def cell (v : Reach) (k : Int) : Nat :=
  (k + v.size).toNat

def get (v : Reach) (k : Int) : Nat :=
  v.cells.getD (v.cell k) 0

def set (v : Reach) (k : Int) (x : Nat) : Reach :=
  { v with cells := v.cells.setIfInBounds (v.cell k) x }

/-- The number of old elements passed on diagonal `k` by the `d`-th edit: an old element is dropped
or a new one added, whichever leads farther. -/
def extend (v : Reach) (d k : Int) : Nat :=
  if k = -d ∨ (k ≠ d ∧ v.get (k - 1) < v.get (k + 1)) then v.get (k + 1) else v.get (k - 1) + 1

end Reach

/-- The number of equal elements from two places on. -/
def runLength (old new : Array α) : Nat → Nat → Nat → Nat
  | 0, _, _ => 0
  | fuel + 1, i, j =>
    match old[i]?, new[j]? with
    | some a, some b => if a = b then 1 + runLength old new fuel (i + 1) (j + 1) else 0
    | _, _ => 0

/-- The diagonals that `d` edits can lead to, from the last to the first. -/
def diagonals (d : Nat) : List Int :=
  (List.range (d + 1)).map fun (i : Nat) => Int.ofNat d - 2 * Int.ofNat i

/-- A search from one end of two lists: the lists as seen from there. -/
structure Search (α : Type) where
  old : Array α
  new : Array α

/-- The number of old elements passed on a diagonal, from where the last run of equal elements
starts, and after it. -/
def Search.advance (s : Search α) (v : Reach) (d : Nat) (k : Int) : Nat × Nat :=
  let x := v.extend d k
  let y := (x : Int) - k
  let run := if 0 ≤ y then runLength s.old s.new s.old.size x y.toNat else 0
  (x, x + run)

/-- Goes along diagonals with `d` edits.  `meets` says whether the other search has come to where
this one is on a diagonal; then the place where its last run starts is given. -/
def Search.sweep (s : Search α) (d : Nat) (meets : Int → Nat → Bool) :
    Reach → List Int → Reach × Option (Int × Nat × Nat)
  | v, [] => (v, none)
  | v, k :: ks =>
    let (x, reached) := s.advance v d k
    let v := v.set k reached
    if meets k reached then (v, some (k, x, reached)) else s.sweep d meets v ks

/-- Searches from both ends with `d` edits and more, and gives the numbers of old and new elements
before the place to cut. -/
def meeting (forward backward : Search α) :
    Nat → Nat → Reach → Reach → Option (Nat × Nat)
  | 0, _, _, _ => none
  | rounds + 1, d, ahead, behind =>
    let n := forward.old.size
    let m := forward.new.size
    let delta : Int := (n : Int) - (m : Int)
    let odd := delta % 2 != 0
    let ks := diagonals d
    let meetsBehind := fun (k : Int) (x : Nat) =>
      odd && (k - delta).natAbs < d && decide (n ≤ x + behind.get (delta - k))
    match forward.sweep d meetsBehind ahead ks with
    | (_, some (k, x, _)) => some (x, ((x : Int) - k).toNat)
    | (ahead, none) =>
      let meetsAhead := fun (k : Int) (x : Nat) =>
        !odd && (k - delta).natAbs ≤ d && decide (n ≤ x + ahead.get (delta - k))
      match backward.sweep d meetsAhead behind ks with
      | (_, some (k, _, x)) => some (n - x, m - ((x : Int) - k).toNat)
      | (behind, none) => meeting forward backward rounds (d + 1) ahead behind

/-- The place to cut two lists. -/
def cutPlace (old new : List α) : Option (Nat × Nat) :=
  let size := (old.length + new.length + 1) / 2 + 1
  meeting ⟨old.toArray, new.toArray⟩ ⟨old.reverse.toArray, new.reverse.toArray⟩ size 0
    (Reach.start size) (Reach.start size)

/-- A script between two lists.  What they start and end with is kept. -/
def script : Nat → List α → List α → List (Run α)
  | 0, old, new => [.drop old, .add new]
  | fuel + 1, old, new =>
    let first := commonStart old new
    let old := old.drop first.length
    let new := new.drop first.length
    let last := commonEnd old new
    let old := old.take (old.length - last.length)
    let new := new.take (new.length - last.length)
    let middle :=
      match old, new with
      | [], [] => []
      | old, [] => [.drop old]
      | [], new => [.add new]
      | old, new =>
        match cutPlace old new with
        | some (x, y) =>
          script fuel (old.take x) (new.take y) ++ script fuel (old.drop x) (new.drop y)
        | none => [.drop old, .add new]
    keeping first ++ middle ++ keeping last

def shortest (old new : List α) : List (Run α) :=
  script (old.length + new.length + 1) old new

end DocWiring.Diff
