import DocWiring.Error
import DocWiring.OrderedMap

/-! # Top ancestors

The class index knows the parent of every class that is declared anywhere in the files; of two
declarations of a name the first counts.  The top ancestor of a class is the first name on its
chain of parents that the index does not know.
-/

namespace DocWiring

/-- The parent of a class and where the class is declared. -/
structure ClassEntry where
  parent : String
  path : Path
  line : Nat
deriving DecidableEq, Repr

/-- The declared classes by name. -/
structure ClassIndex where
  entries : OrderedMap String ClassEntry

namespace ClassIndex

def empty : ClassIndex := ⟨OrderedMap.empty⟩

def find? (x : ClassIndex) (name : String) : Option ClassEntry :=
  x.entries.find? name

def size (x : ClassIndex) : Nat :=
  x.entries.size

/-- Adds a class unless its name is taken, and gives the entry that takes it. -/
def register (x : ClassIndex) (name : String) (entry : ClassEntry) :
    Option ClassEntry × ClassIndex :=
  match x.find? name with
  | some first => (some first, x)
  | none => (none, ⟨x.entries.insert name entry⟩)

/-- The name belongs to the class on this line of this path. -/
def isOwner (x : ClassIndex) (name : String) (path : Path) (line : Nat) : Bool :=
  match x.find? name with
  | some e => e.path.same path && e.line == line
  | none => false

def maxChain : Nat := 64

/-- Follows parents from the last name of a chain, which is given with its last name first. -/
def climb (x : ClassIndex) (name : String) : Nat → String → List String → Except Error String
  | 0, current, _ => .ok current
  | steps + 1, current, chain =>
    match x.find? current with
    | none => .ok current
    | some e =>
      let longer := e.parent :: chain
      if e.parent ∈ chain ∨ longer.length > maxChain then
        .error (.ancestorCycle name longer.reverse)
      else climb x name steps e.parent longer

/-- The first name on the chain of parents that is not declared.  A chain that comes back to a
class, or that holds more names than `maxChain`, is an error. -/
def topAncestor (x : ClassIndex) (name : String) : Except Error String :=
  climb x name (maxChain + 1) name [name]

end ClassIndex

end DocWiring
