import DocWiring.Config.Basic

/-! # Fields of a configuration

A configuration is written as named fields or as a list of values in the order of the fields.  Any
field may be missing; then it has its standard value.  A name that is no field is passed over, but
a field may not be given twice.
-/

namespace DocWiring.Config

/-- The fields of a configuration, in the order in which they are written. -/
inductive Field where
  | included
  | excluded
  | removeUnknown
  | workers
  | transforms
deriving DecidableEq, Repr

namespace Field

def all : List Field :=
  [.included, .excluded, .removeUnknown, .workers, .transforms]

def name : Field → String
  | .included => "include"
  | .excluded => "exclude"
  | .removeUnknown => "remove_unknown"
  | .workers => "workers"
  | .transforms => "transforms"

def ofName? (name : String) : Option Field :=
  all.find? fun f => f.name == name

end Field

/-- The fields that are given, with their values in some format. -/
abbrev Given (α : Type) := List (Field × α)

/-- The fields among named values, unless one is given twice. -/
def Given.ofNamed? {α : Type} : List (String × α) → Option (Given α)
  | [] => some []
  | (name, value) :: rest => do
    let given ← ofNamed? rest
    match Field.ofName? name with
    | none => return given
    | some field => if given.any fun g => g.1 = field then none else return (field, value) :: given

/-- The fields that values stand for by their order, unless there are more values than fields. -/
def Given.ofValues? {α : Type} (values : List α) : Option (Given α) :=
  if values.length ≤ Field.all.length then some (Field.all.zip values) else none

/-- How a format writes the values of the fields. -/
structure Format (α : Type) where
  texts? : α → Option (List String)
  flag? : α → Option Bool
  count? : α → Option (Option UInt64)
  table? : α → Option RuleTable

/-- The value of a field, or its standard value if it is not given. -/
def Given.read? {α β : Type} (given : Given α) (field : Field) (read? : α → Option β)
    (standard : β) : Option β :=
  match given.find? fun g => g.1 = field with
  | some g => read? g.2
  | none => some standard

def ofGiven? {α : Type} (format : Format α) (given : Given α) : Option Config := do
  return {
    included := ← given.read? .included format.texts? standard.included
    excluded := ← given.read? .excluded format.texts? standard.excluded
    removeUnknown := ← given.read? .removeUnknown format.flag? standard.removeUnknown
    workers := ← given.read? .workers format.count? standard.workers
    transforms := ← given.read? .transforms format.table? standard.transforms }

def identityName : String := "identity"

def appendSuffixName : String := "append_suffix"

end DocWiring.Config
