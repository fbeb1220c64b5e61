import DocWiring.Cli.Arguments
import DocWiring.Config.File
import DocWiring.Run.Event

/-! # Invocations

What the command line asks for: to write a configuration file, or to bring the doc blocks of files
up to date.
-/

namespace DocWiring.Cli

structure ApplyOptions where
  sources : List Path
  dryRun : Bool
  remove : Bool
  diff : Bool
  workers : Option UInt64

inductive Command where
  | init (force : Bool)
  | apply (options : ApplyOptions)

/-- A command with the options that every command has. -/
structure Invocation where
  command : Command
  config : Path
  verbose : Bool
  quiet : Bool

def commonSwitches : List Switch :=
  [.config, .verbose, .quiet, .help]

def initSwitches : List Switch :=
  .force :: commonSwitches

def applySwitches : List Switch :=
  [.dryRun, .remove, .diff, .workers] ++ commonSwitches

def has (given : List Given) (s : Switch) : Bool :=
  given.any fun g => g.1 == s

def value? (given : List Given) (s : Switch) : Option (List Char) :=
  (given.find? fun g => g.1 == s).map Prod.snd

def pathOfChars (text : List Char) : Path :=
  ⟨String.ofList text⟩

/-- Switches that exclude each other are not given together. -/
def agree (given : List Given) : Bool :=
  !(has given .verbose && has given .quiet)

/-- The number of workers, given as a switch or else by the environment. -/
def workers (given : List Given) (environment : Option String) :
    Except Stop (Option UInt64) :=
  match value? given .workers, environment with
  | some text, _ => .ok (countOfText? text)
  | none, none => .ok none
  | none, some text =>
    match countOfText? text.toList with
    | some n => .ok (some n)
    | none => .error .rejected

def commandOf (name : List Char) (args : List (List Char)) (environment : Option String) :
    Except Stop (Command × List Given) := do
  if name = "init".toList then
    let parsed ← readArguments initSwitches false none [] args
    if !parsed.words.isEmpty then throw .rejected
    return (.init (has parsed.given .force), parsed.given)
  else if name = "apply".toList then
    let parsed ← readArguments applySwitches false none [] args
    if parsed.words.isEmpty || parsed.words.any List.isEmpty then throw .rejected
    let options : ApplyOptions := {
      sources := parsed.words.map pathOfChars
      dryRun := has parsed.given .dryRun
      remove := has parsed.given .remove
      diff := has parsed.given .diff
      workers := ← workers parsed.given environment }
    return (.apply options, parsed.given)
  else if name = "help".toList then throw .help
  else throw .rejected

/-- What the arguments ask for, where `environment` is the number of workers that it sets.  A common
switch may stand before the command or after it; a value after the command counts more. -/
def invocationOf (args : List String) (environment : Option String) : Except Stop Invocation := do
  let outer ← readArguments (.version :: commonSwitches) true none [] (args.map String.toList)
  match outer.words with
  | [] => throw .rejected
  | name :: rest =>
    let (command, given) ← commandOf name rest environment
    if !agree outer.given || !agree given then throw .rejected
    let config? := (value? given .config).or (value? outer.given .config)
    return {
      command := command
      config := (config?.map pathOfChars).getD Config.standardFile
      verbose := has outer.given .verbose || has given .verbose
      quiet := has outer.given .quiet || has given .quiet }

/-- The level that a log filter names; anything else shows nothing. -/
def levelOfFilter (text : String) : Option Level :=
  match String.ofList (text.toList.map Char.toLower) with
  | "" => some .error
  | "error" => some .error
  | "warn" => some .warn
  | "info" => some .info
  | "debug" => some .debug
  | "trace" => some .debug
  | _ => none

/-- The least level that is logged.  A log filter counts more than the switches. -/
def Invocation.level (i : Invocation) (filter : Option String) : Option Level :=
  match filter with
  | some text => levelOfFilter text
  | none => some (if i.verbose then .debug else if i.quiet then .error else .info)

end DocWiring.Cli
