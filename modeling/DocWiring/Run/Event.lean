import DocWiring.Ancestry

/-! # Events

What a run tells while it goes on.  An event has a level, a message and fields.
-/

namespace DocWiring

/-- How much an event matters, most first. -/
inductive Level where
  | error
  | warn
  | info
  | debug
deriving DecidableEq, Repr

namespace Level

def rank : Level → Nat
  | .error => 0
  | .warn => 1
  | .info => 2
  | .debug => 3

/-- The level as a log line starts with it. -/
def label : Level → String
  | .error => "ERROR"
  | .warn => " WARN"
  | .info => " INFO"
  | .debug => "DEBUG"

end Level

inductive FieldValue where
  | text (value : String)
  | number (value : Nat)
  | flag (value : Bool)
deriving DecidableEq, Repr

def FieldValue.show : FieldValue → String
  | .text value => value
  | .number value => toString value
  | .flag true => "true"
  | .flag false => "false"

inductive Event where
  | noClassesIn (path : Path)
  | fileFailed (path : Path) (error : Error)
  | noClasses (files : Nat)
  | duplicateClass (className : String) (path : Path) (line : Nat) (first : ClassEntry)
  | indexBuilt (classes files : Nat)
  | classFailed (path : Path) (className : String) (line : Nat) (error : Error)
  | unrecognized (path : Path) (className ancestor : String)
  | updated (path : Path) (classes : Nat) (dryRun : Bool)
deriving DecidableEq, Repr

namespace Event

def level : Event → Level
  | .noClassesIn _ => .debug
  | .fileFailed _ _ => .error
  | .noClasses _ => .warn
  | .duplicateClass _ _ _ _ => .warn
  | .indexBuilt _ _ => .debug
  | .classFailed _ _ _ _ => .error
  | .unrecognized _ _ _ => .info
  | .updated _ _ _ => .info

def message : Event → String
  | .noClassesIn _ => "no classes in file"
  | .fileFailed _ error => error.message
  | .noClasses _ => "no classes found"
  | .duplicateClass _ _ _ _ => "duplicate class declaration ignored"
  | .indexBuilt _ _ => "class index built"
  | .classFailed _ _ _ error => error.message
  | .unrecognized _ _ _ => "not a recognized class"
  | .updated _ _ _ => "doc blocks updated"

def fields : Event → List (String × FieldValue)
  | .noClassesIn path => [("path", .text path.text)]
  | .fileFailed path _ => [("path", .text path.text)]
  | .noClasses files => [("files", .number files)]
  | .duplicateClass className path line first =>
    [("class", .text className), ("path", .text path.text), ("line", .number line),
      ("first_path", .text first.path.text), ("first_line", .number first.line)]
  | .indexBuilt classes files => [("classes", .number classes), ("files", .number files)]
  | .classFailed path className line _ =>
    [("path", .text path.text), ("class", .text className), ("line", .number line)]
  | .unrecognized path className ancestor =>
    [("path", .text path.text), ("class", .text className), ("ancestor", .text ancestor)]
  | .updated path classes dryRun =>
    [("path", .text path.text), ("classes", .number classes), ("dry_run", .flag dryRun)]

def line (e : Event) : String :=
  e.level.label ++ " " ++ e.message ++
    String.join (e.fields.map fun f => " " ++ f.1 ++ "=" ++ f.2.show)

end Event

end DocWiring
