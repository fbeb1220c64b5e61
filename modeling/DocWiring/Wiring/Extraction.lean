import DocWiring.ClassModel
import DocWiring.Error
import DocWiring.OrderedMap
import DocWiring.SortedMap
import DocWiring.Wiring.Name

/-! # The wiring of a class

Two shapes of list item wire a collaborator.  A bare string names a symbol and its type at once;
a string key with a list value names a symbol whose type is the `className` entry of the list, or
the key itself without such an entry.  Any other item is passed over.
-/

namespace DocWiring

/-- Symbols and their types, symbols ascending. -/
abbrev SymbolMap := SortedMap String

namespace Wiring

def classNameKey : String := "className"

/-- The first string that the list has under the key for a type. -/
def className? : List ListItem → Option String
  | [] => none
  | .keyed (.string key) (.string value) :: rest =>
    if key = classNameKey then some value else className? rest
  | _ :: rest => className? rest

/-- The symbol that an item wires and its type, as they are written. -/
def entry? : ListItem → Option (String × String)
  | .bare (.string value) => some (value, value)
  | .keyed (.string key) (.list items) => some (key, (className? items).getD key)
  | _ => none

/-- The symbols that a list wires, plugin prefixes removed; of two items for one symbol the last
decides. -/
def symbols (items : List ListItem) : SymbolMap :=
  SortedMap.ofList
    ((items.filterMap entry?).map fun e => (stripPlugin e.1, stripPlugin e.2))

end Wiring

/-- Where a class is declared. -/
structure ClassKey where
  path : Path
  line : Nat
deriving DecidableEq, Repr

/-- The two keys name the same line of the same path. -/
def ClassKey.same (a b : ClassKey) : Bool :=
  a.path.same b.path && a.line == b.line

/-- What the attributes of one class wire, attributes in the order of their declaration. -/
structure Extraction where
  key : ClassKey
  attributes : OrderedMap String SymbolMap
deriving DecidableEq

/-- Collects the wiring of the attributes whose names it knows. -/
structure Extractor where
  vocabulary : NameSet

namespace Extractor

def ofNames (names : List String) : Extractor :=
  ⟨NameSet.ofNames names⟩

def knows (x : Extractor) (attr : String) : Bool :=
  x.vocabulary.contains attr

/-- The first name that stands twice in a list. -/
def firstRepeated? : List String → List String → Option String
  | _, [] => none
  | seen, n :: rest => if n ∈ seen then some n else firstRepeated? (n :: seen) rest

def collected (x : Extractor) (cls : ClassNode) : List AttributeDeclaration :=
  cls.attributes.filter fun a => x.knows a.name

/-- The symbols that an attribute wires, when its default value is a list that wires any. -/
def wiring? (a : AttributeDeclaration) : Option (String × SymbolMap) :=
  match a.items? with
  | none => none
  | some items =>
    let symbols := Wiring.symbols items
    if symbols.isEmpty then none else some (a.name, symbols)

/-- The wiring of a class.  An attribute of the vocabulary may be declared only once. -/
def extract (x : Extractor) (path : Path) (cls : ClassNode) : Except Error Extraction :=
  let attributes := x.collected cls
  match firstRepeated? [] (attributes.map (·.name)) with
  | some name => .error (.structural (.duplicateAttribute name cls.name path cls.startLine))
  | none => .ok ⟨⟨path, cls.startLine⟩, OrderedMap.ofList (attributes.filterMap wiring?)⟩

end Extractor

/-- The classes met so far while the classes of a file are gone through. -/
structure Traversal where
  visited : List ClassKey

namespace Traversal

def start : Traversal := ⟨[]⟩

def met (t : Traversal) (path : Path) (cls : ClassNode) : Bool :=
  t.visited.any (·.same ⟨path, cls.startLine⟩)

/-- Extracts the wiring of a class that has not been met before. -/
def visit (t : Traversal) (x : Extractor) (path : Path) (cls : ClassNode) :
    Except Error Extraction × Traversal :=
  if t.met path cls then
    (.error (.structural (.duplicateClass cls.name path cls.startLine)), t)
  else
    (x.extract path cls, ⟨⟨path, cls.startLine⟩ :: t.visited⟩)

end Traversal

end DocWiring
