import DocWiring.Config.Basic
import DocWiring.Merge
import DocWiring.Run.Event
import DocWiring.Run.Report

/-! # The result of a file

Every class of a file that owns its name in the index, and whose top ancestor has rules, is merged.
A class that fails loses only its own patch.  The patches of the other classes are applied together;
if the file cannot take them or cannot be encoded any more, it stays as it is.
-/

namespace DocWiring

/-- What a run works with. -/
structure Setup where
  provider : Path → SourceUnit → Except Error (List ClassNode)
  config : Config
  dryRun : Bool
  removeUnknown : Bool

namespace Setup

/-- Old annotations are taken out if the run or the configuration says so. -/
def removes (s : Setup) : Bool :=
  s.removeUnknown || s.config.removeUnknown

/-- Collects every attribute that has a rule. -/
def extractor (s : Setup) : Extractor :=
  ⟨s.config.transforms.attributeNames⟩

end Setup

/-- A file with its classes. -/
structure ParsedFile where
  path : Path
  source : SourceUnit
  classes : List ClassNode

/-- What becomes of a class of a file. -/
inductive ClassOutcome where
  | passedOver
  | unrecognized (ancestor : String)
  | complete
  | patched (patch : Patch)
  | failed (error : Error)

namespace ClassOutcome

def patch? : ClassOutcome → Option Patch
  | .patched p => some p
  | _ => none

def error? : ClassOutcome → Option Error
  | .failed e => some e
  | _ => none

end ClassOutcome

/-- What becomes of a file as a whole.  The bytes of a changed file are there if it is to be written. -/
inductive Ending where
  | kept
  | changed (change : FileChange) (bytes : Option ByteArray)
  | failed (error : Error)

/-- What becomes of a file and of its classes. -/
structure FileResult where
  path : Path
  outcomes : List (ClassNode × ClassOutcome)
  ending : Ending

namespace FileResult

def change? (r : FileResult) : Option FileChange :=
  match r.ending with
  | .changed change _ => some change
  | _ => none

def bytes? (r : FileResult) : Option ByteArray :=
  match r.ending with
  | .changed _ bytes => bytes
  | _ => none

def classFailure? (path : Path) (o : ClassNode × ClassOutcome) : Option Failure :=
  o.2.error?.map fun e => ⟨path, some o.1.name, e⟩

/-- The failures of the classes, and then that of the file. -/
def failures (r : FileResult) : List Failure :=
  r.outcomes.filterMap (classFailure? r.path) ++
    match r.ending with
    | .failed e => [⟨r.path, none, e⟩]
    | _ => []

def classEvent? (path : Path) (o : ClassNode × ClassOutcome) : Option Event :=
  match o.2 with
  | .unrecognized ancestor => some (.unrecognized path o.1.name ancestor)
  | .failed e => some (.classFailed path o.1.name o.1.startLine e)
  | _ => none

/-- What is told of the classes, and then of the file. -/
def events (dryRun : Bool) (r : FileResult) : List Event :=
  r.outcomes.filterMap (classEvent? r.path) ++
    match r.ending with
    | .kept => []
    | .changed change _ => [.updated r.path change.classes.length dryRun]
    | .failed e => [.fileFailed r.path e]

/-- The file could not be written. -/
def unwritten (r : FileResult) (cause : OsError) : FileResult :=
  { r with ending := .failed (.io (.os cause)) }

/-- The outcome of a class whose top ancestor has rules. -/
def mergeClass (s : Setup) (file : ParsedFile) (rules : AttributeRules) (cls : ClassNode)
    (extraction : Except Error Extraction) : ClassOutcome :=
  match extraction with
  | .error e => .failed e
  | .ok x =>
    match Merge.merge s.extractor s.removes file.source cls x rules with
    | .error e => .failed e
    | .ok none => .complete
    | .ok (some p) => .patched p

/-- The outcome of a class, and the classes met so far. -/
def classStep (s : Setup) (index : ClassIndex) (file : ParsedFile) (t : Traversal)
    (cls : ClassNode) : ClassOutcome × Traversal :=
  if cls.parent.isSome && index.isOwner cls.name file.path cls.startLine then
    match index.topAncestor cls.name with
    | .error e => (.failed e, t)
    | .ok ancestor =>
      match s.config.transforms.rulesFor? ancestor with
      | none => (.unrecognized ancestor, t)
      | some rules =>
        let (extraction, next) := t.visit s.extractor file.path cls
        (mergeClass s file rules cls extraction, next)
  else (.passedOver, t)

/-- The outcomes of classes in order. -/
def classOutcomes (s : Setup) (index : ClassIndex) (file : ParsedFile) :
    Traversal → List ClassNode → List (ClassNode × ClassOutcome)
  | _, [] => []
  | t, cls :: rest =>
    let (outcome, next) := classStep s index file t cls
    (cls, outcome) :: classOutcomes s index file next rest

/-- What becomes of a file for some patches of its classes. -/
def endingOf (s : Setup) (file : ParsedFile) (patches : List (String × Patch)) : Ending :=
  match Patch.applyAll file.source (patches.map Prod.snd) with
  | .error e => .failed e
  | .ok updated =>
    let change : FileChange :=
      ⟨file.path, file.source.text, updated.text, patches.map Prod.fst⟩
    if updated = file.source then .kept
    else if s.dryRun then .changed change none
    else
      match updated.toBytes with
      | .error e => .failed e
      | .ok bytes => .changed change (some bytes)

/-- The error of a class that ends the whole run. -/
def runError? (o : ClassNode × ClassOutcome) : Option Error :=
  o.2.error?.filter fun e => e.scope = .wholeRun

/-- The patches of classes with the names of the classes. -/
def patchesOf (os : List (ClassNode × ClassOutcome)) : List (String × Patch) :=
  os.filterMap fun o => o.2.patch?.map fun p => (o.1.name, p)

/-- Brings the doc blocks of a file up to date. -/
def ofFile (s : Setup) (index : ClassIndex) (file : ParsedFile) : Except Error FileResult :=
  let os := classOutcomes s index file Traversal.start file.classes
  match os.findSome? runError? with
  | some e => .error e
  | none =>
    let patches := patchesOf os
    .ok ⟨file.path, os, if patches.isEmpty then .kept else endingOf s file patches⟩

end FileResult

end DocWiring
