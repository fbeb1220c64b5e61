import DocWiring.Php.Lexeme

/-! # Syntax trees

A concrete syntax tree as a parser hands it out.  All of the text is in it: a leaf has the text of a
token, and what belongs to no node, such as white space, stands in the gaps between the nodes.  So a
node starts on the row that the line feeds before it say.
-/

namespace DocWiring.Php

/-- What the grammar says of a node: its kind, whether the kind has a name or is that of a plain sign,
the field of its parent that it fills, and whether it was put in where the text lacks it. -/
structure Label where
  kind : String
  named : Bool
  field : Option String := none
  missing : Bool := false
deriving DecidableEq, Repr

inductive Node where
  | gap (text : List Char)
  | leaf (label : Label) (text : List Char)
  | branch (label : Label) (parts : List Node)

namespace Node

def label? : Node → Option Label
  | gap _ => none
  | leaf label _ => some label
  | branch label _ => some label

/-- The nodes and gaps that a node is made of. -/
def parts : Node → List Node
  | branch _ parts => parts
  | _ => []

mutual

/-- The text that a node goes over. -/
def text : Node → List Char
  | gap text => text
  | leaf _ text => text
  | branch _ parts => textAll parts

def textAll : List Node → List Char
  | [] => []
  | n :: ns => n.text ++ textAll ns

end

mutual

def size : Node → Nat
  | gap _ => 1
  | leaf _ _ => 1
  | branch _ parts => 1 + sizeAll parts

def sizeAll : List Node → Nat
  | [] => 0
  | n :: ns => n.size + sizeAll ns

end

theorem sizeAll_append (ms ns : List Node) : sizeAll (ms ++ ns) = sizeAll ms + sizeAll ns := by
  induction ms with
  | nil => rw [List.nil_append, sizeAll, Nat.zero_add]
  | cons m ms ih => rw [List.cons_append, sizeAll, sizeAll, ih, Nat.add_assoc]

/-- The kind of a node; empty for a gap. -/
def kind (n : Node) : String :=
  (n.label?.map Label.kind).getD ""

def isNode (n : Node) : Bool :=
  n.label?.isSome

def isNamed (n : Node) : Bool :=
  n.label?.any Label.named

/-- The text does not follow the grammar here. -/
def isFault (n : Node) : Bool :=
  n.label?.any fun label => label.kind == "ERROR" || label.missing

mutual

/-- There is a fault in the node. -/
def hasFault : Node → Bool
  | gap _ => false
  | leaf label text => (leaf label text).isFault
  | branch label parts => (branch label parts).isFault || anyFault parts

def anyFault : List Node → Bool
  | [] => false
  | n :: ns => n.hasFault || anyFault ns

end

def namedParts (n : Node) : List Node :=
  n.parts.filter isNamed

/-- The first part that fills a field. -/
def childByField? (n : Node) (field : String) : Option Node :=
  n.parts.find? fun part => (part.label?.bind Label.field) == some field

end Node

/-- The number of line feeds in some nodes, in whichever order they come. -/
def feeds : List Node → Nat
  | [] => 0
  | n :: ns => lineBreaks n.text + feeds ns

/-- A node among its siblings: the row on which its parent starts, the siblings and gaps before it,
nearest first, and the node. -/
structure Place where
  base : Nat
  before : List Node
  node : Node

namespace Place

/-- The row on which the node starts; the first row is row zero. -/
def row (p : Place) : Nat :=
  p.base + feeds p.before

/-- The places of some siblings one after the other. -/
def along (base : Nat) (before : List Node) : List Node → List Place
  | [] => []
  | n :: ns => ⟨base, before, n⟩ :: along base (n :: before) ns

/-- The places of what a node is made of. -/
def children (p : Place) : List Place :=
  along p.row [] p.node.parts

theorem sizeAll_along (keep : Node → Bool) (base : Nat) (before ns : List Node) :
    Node.sizeAll (((along base before ns).filter fun p => keep p.node).map Place.node) ≤
      Node.sizeAll ns := by
  induction ns generalizing before with
  | nil => exact Nat.le_refl 0
  | cons n ns ih =>
    have hRest := ih (n :: before)
    rw [along, List.filter_cons, Node.sizeAll]
    split
    · rw [List.map_cons, Node.sizeAll]
      exact Nat.add_le_add_left hRest _
    · exact Nat.le_trans hRest (Nat.le_add_left _ _)

theorem sizeAll_parts_lt (n : Node) : Node.sizeAll n.parts < n.size := by
  cases n <;> simp [Node.parts, Node.size, Node.sizeAll]

/-- Visits the places on a stack, the topmost first, and with each of them the parts to keep. -/
def walk (keep : Node → Bool) : List Place → List Place
  | [] => []
  | p :: stack => p :: walk keep (p.children.filter (fun q => keep q.node) ++ stack)
termination_by stack => Node.sizeAll (stack.map Place.node)
decreasing_by
  have hChildren := sizeAll_along keep p.row [] p.node.parts
  have hParts := sizeAll_parts_lt p.node
  rw [List.map_append, Node.sizeAll_append, List.map_cons, Node.sizeAll, children]
  omega

end Place

/-- The place of the root of a tree. -/
def Node.place (root : Node) : Place :=
  ⟨0, [], root⟩

end DocWiring.Php
