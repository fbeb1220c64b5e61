import DocWiring.Rules

/-! # Configurations

A configuration says which files of a directory are taken, whether old annotations are taken out
first, how many workers there are, and which rules hold.
-/

namespace DocWiring

structure Config where
  included : List String
  excluded : List String
  removeUnknown : Bool
  workers : Option UInt64
  transforms : RuleTable
deriving DecidableEq, Repr

namespace Config

/-- Files that are taken without a configuration. -/
def standardIncluded : List String :=
  ["**/*.php"]

/-- Files that are left out without a configuration: those of package managers, of the runtime
cache and of version control. -/
def standardExcluded : List String :=
  ["**/vendor/**", "**/node_modules/**", "**/tmp/**", "**/.git/**"]

/-- What holds without a configuration. -/
def standard : Config where
  included := standardIncluded
  excluded := standardExcluded
  removeUnknown := false
  workers := none
  transforms := RuleTable.builtin

/-- Reads a pattern; a pattern that cannot be read is a fault of the configuration. -/
def pattern (text : String) : Except ConfigurationFault Glob.Pattern :=
  match Glob.Pattern.parse text with
  | .ok p => .ok p
  | .error fault => .error (.invalidGlob text fault)

/-- The first pattern that cannot be read. -/
def globFault? (texts : List String) : Option ConfigurationFault :=
  texts.findSome? fun t =>
    match pattern t with
    | .ok _ => none
    | .error fault => some fault

/-- What is wrong with a configuration, looked for in its patterns, then in the number of workers,
then in the rules. -/
def fault? (c : Config) : Option ConfigurationFault :=
  match globFault? (c.included ++ c.excluded) with
  | some fault => some fault
  | none => if c.workers = some 0 then some .noWorkers else c.transforms.fault?

def validated (c : Config) : Except Error Config :=
  match c.fault? with
  | some fault => .error (.configuration fault)
  | none => .ok c

end Config

end DocWiring
