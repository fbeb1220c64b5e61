import DocWiring.Config.Basic
import DocWiring.Diff.Unified
import DocWiring.Run.Event
import DocWiring.Run.Report

/-! # Listings

What the commands print.
-/

namespace DocWiring.Cli

def listed (text : String) : List Char :=
  text.toList ++ ['\n']

/-- Tells that a configuration has been written, and the rules it holds. -/
def createdText (p : Path) (c : Config) : List Char :=
  listed ("✓ Created " ++ p.text) ++
    c.transforms.rules.entries.flatMap fun row =>
      let rules := row.2.entries.map fun rule => "$" ++ rule.1 ++ " " ++ rule.2.label
      listed ("  → " ++ row.1 ++ ": " ++ String.intercalate ", " rules)

def existsText : List Char :=
  listed "✗ Config file already exists. Use --force to overwrite."

/-- Tells why a configuration could not be written. -/
def unwrittenText (p : Path) (cause : OsError) : List Char :=
  listed ("Error: failed to write " ++ p.text) ++ listed "" ++ listed "Caused by:" ++
    listed ("    0: " ++ (Error.io (.os cause)).message) ++ listed ("    1: " ++ cause.message)

def failureText (message : String) : List Char :=
  listed ("✗ " ++ message)

def scanningText (files : Nat) : List Char :=
  listed ("→ Scanning " ++ toString files ++ " PHP file(s)...")

def changeText (dryRun : Bool) (c : FileChange) : List Char :=
  let verb := if dryRun then "Would update" else "Updated"
  listed ("  ✓ " ++ verb ++ " " ++ c.path.text ++ " (" ++ String.intercalate ", " c.classes ++ ")")

def failedText (f : Failure) : List Char :=
  let place :=
    match f.className? with
    | some name => f.path.text ++ " [" ++ name ++ "]"
    | none => f.path.text
  listed ("  ✗ " ++ place ++ ": " ++ f.error.message)

def summaryText (dryRun : Bool) (r : RunReport) : List Char :=
  let changed := if dryRun then "  Files to change:  " else "  Files changed:    "
  listed "" ++ listed "Summary" ++ listed ("  Files scanned:    " ++ toString r.filesScanned) ++
    listed ("  Classes indexed:  " ++ toString r.classesIndexed) ++
    listed (changed ++ toString r.changes.length) ++
    listed ("  Classes patched:  " ++ toString r.classesPatched) ++
    if r.failures.isEmpty then [] else listed ("  Failures:         " ++ toString r.failures.length)

/-- The report of a run, with the diffs of the changed files if they are asked for. -/
def reportText (dryRun diff : Bool) (r : RunReport) : List Char :=
  let diffs :=
    if diff then r.changes.flatMap fun c => Diff.unified c.path.text c.before c.after else []
  diffs ++ r.changes.flatMap (changeText dryRun) ++ r.failures.flatMap failedText ++
    summaryText dryRun r

/-- The log lines of events that matter enough. -/
def logText (least : Option Level) (events : List Event) : List Char :=
  match least with
  | none => []
  | some least =>
    (events.filter fun e => e.level.rank ≤ least.rank).flatMap fun e => listed e.line

end DocWiring.Cli
