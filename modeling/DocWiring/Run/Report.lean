import DocWiring.Error

/-! # Reports

What a run over files did: the files it changed, and the files and classes that failed.
-/

namespace DocWiring

/-- A file that the run changed, with the names of the classes that were patched in it. -/
structure FileChange where
  path : Path
  before : List Char
  after : List Char
  classes : List String
deriving DecidableEq, Repr

/-- A file that failed, or one class of it. -/
structure Failure where
  path : Path
  className? : Option String
  error : Error
deriving DecidableEq, Repr

inductive Outcome where
  | clean
  | changed
  | failed
deriving DecidableEq, Repr

def Outcome.exitCode : Outcome → Nat
  | .clean => 0
  | .changed => 1
  | .failed => 2

structure RunReport where
  filesScanned : Nat
  classesIndexed : Nat
  changes : List FileChange
  failures : List Failure
deriving DecidableEq, Repr

namespace RunReport

/-- Any failure counts more than any change. -/
def outcome (r : RunReport) : Outcome :=
  if !r.failures.isEmpty then .failed
  else if !r.changes.isEmpty then .changed
  else .clean

def classesPatched (r : RunReport) : Nat :=
  r.changes.foldl (fun n c => n + c.classes.length) 0

end RunReport

end DocWiring
