import DocWiring.Cli.Invocation
import DocWiring.Cli.Listing
import DocWiring.Discovery
import DocWiring.Disk
import DocWiring.Php.File
import DocWiring.Run.Plan

/-! # The program

Carries out an invocation on a disk.
-/

namespace DocWiring.Cli

/-- What the program prints and the status it ends with. -/
structure Response where
  exit : Nat
  output : List Char
  errors : List Char

def versionText : String := "cake-magic 0.3.0"

def usageText : List Char :=
  listed "Usage: cake-magic [--config <FILE>] [--verbose | --quiet] <COMMAND>" ++ listed "" ++
    listed "Commands:" ++ listed "  init [--force]" ++
    listed "  apply [--dry-run] [--remove] [--diff] [--workers <N>] <SOURCES>..."

/-- The answer to arguments that ask for no command. -/
def Stop.response : Stop → Response
  | .rejected => ⟨2, [], usageText⟩
  | .version => ⟨0, listed versionText, []⟩
  | .help => ⟨0, usageText, []⟩

variable {m : Type → Type} [Monad m]

def runInit (disk : Disk m) (p : Path) (force : Bool) : m Response := do
  if !force && (← disk.survey [p]).contains p then
    return ⟨1, [], existsText⟩
  else
    match ← disk.write p Config.standard.toBytes with
    | .ok () => return ⟨0, createdText p Config.standard, []⟩
    | .error cause => return ⟨1, [], unwrittenText p cause⟩

/-- Reads the configuration file if there is one. -/
def readConfig (disk : Disk m) (p : Path) : m (Except Error Config) := do
  if (← disk.survey [p]).contains p then
    return Config.ofFile p (← disk.read p)
  else return .ok Config.standard

def readFiles (disk : Disk m) (paths : List Path) : m (List Run.Input) :=
  paths.mapM fun p => do return (p, ← disk.read p)

/-- Writes a changed file.  A file that cannot be written fails. -/
def writeResult (disk : Disk m) (r : FileResult) : m FileResult := do
  match r.bytes? with
  | none => return r
  | some bytes =>
    match ← disk.write r.path bytes with
    | .ok () => return r
    | .error cause => return r.unwritten cause

/-- Brings the doc blocks of files up to date, under a configuration. -/
def runApply (disk : Disk m) (o : ApplyOptions) (level : Option Level) (c : Config) :
    m Response := do
  match Discovery.discover (← disk.survey o.sources) c o.sources with
  | .error _ => return ⟨2, [], failureText "failed to collect source files"⟩
  | .ok paths =>
    let setup : Setup :=
      { provider := Php.classes, config := c, dryRun := o.dryRun, removeUnknown := o.remove }
    match Run.plan setup (← readFiles disk paths) with
    | .error e => return ⟨2, scanningText paths.length, failureText e.message⟩
    | .ok planned =>
      let run := { planned with results := ← planned.results.mapM (writeResult disk) }
      return {
        exit := run.report.outcome.exitCode
        output := scanningText paths.length ++ reportText o.dryRun o.diff run.report
        errors := logText level run.events }

/-- Carries out an invocation.  `filter` is the log filter that the environment sets. -/
def execute (disk : Disk m) (i : Invocation) (filter : Option String) : m Response := do
  match i.command with
  | .init force => runInit disk i.config force
  | .apply o =>
    match ← readConfig disk i.config with
    | .error e => return ⟨2, [], failureText e.message⟩
    | .ok c => runApply disk o (i.level filter) c

end DocWiring.Cli
