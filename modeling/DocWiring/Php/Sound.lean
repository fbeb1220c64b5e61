import DocWiring.Php.Node

/-! # What the grammar says of a tree

The facts of the grammar of PHP that the reading of classes and the place of their comments rest on: a
class declaration is a statement, so that no name, text, comment or value has one among its parts.
-/

namespace DocWiring.Php

namespace Node

mutual

/-- A node and everything in it. -/
def nodes : Node → List Node
  | gap text => [gap text]
  | leaf label text => [leaf label text]
  | branch label parts => branch label parts :: nodesAll parts

def nodesAll : List Node → List Node
  | [] => []
  | n :: ns => n.nodes ++ nodesAll ns

end

def isClass (n : Node) : Bool :=
  n.kind == "class_declaration"

/-- The kinds that have no statements in them. -/
def closedKinds : List String :=
  ["comment", "name", "qualified_name", "variable_name", "string", "string_content", "string_value",
    "escape_sequence"]

/-- The kinds of properties, items and texts, of which statements can be a part only within functions. -/
def valueKinds : List String :=
  ["property_element", "property_initializer", "array_element_initializer", "encapsed_string"]

/-- A comment that is opened as a block ends where it is closed first. -/
def closesLast : List Char → Bool
  | '/' :: '*' :: rest => blockCommentWidth? rest == some rest.length
  | _ => true

structure Sound (n : Node) : Prop where
  closed : n.kind ∈ closedKinds → ∀ m ∈ n.nodes, m.isClass = false
  apart : n.kind ∈ valueKinds → ∀ part ∈ n.parts, part.isClass = false
  comment : n.kind = "comment" → closesLast n.text = true
  name : n.isClass = true → ∀ part ∈ n.childByField? "name", part.kind = "name"
  start : n.isClass = true → n.text.head?.any (fun c => !isSpace c) = true

instance (n : Node) : Decidable n.Sound :=
  decidable_of_iff ((n.kind ∈ closedKinds → ∀ m ∈ n.nodes, m.isClass = false) ∧
      (n.kind ∈ valueKinds → ∀ part ∈ n.parts, part.isClass = false) ∧
      (n.kind = "comment" → closesLast n.text = true) ∧
      (n.isClass = true → ∀ part ∈ n.childByField? "name", part.kind = "name") ∧
      (n.isClass = true → n.text.head?.any (fun c => !isSpace c) = true))
    ⟨fun ⟨closed, apart, comment, name, start⟩ => ⟨closed, apart, comment, name, start⟩,
      fun ⟨closed, apart, comment, name, start⟩ => ⟨closed, apart, comment, name, start⟩⟩

/-- A tree that follows the grammar. -/
def Regular (root : Node) : Prop :=
  ∀ n ∈ root.nodes, n.Sound

instance (root : Node) : Decidable root.Regular :=
  inferInstanceAs (Decidable (∀ n ∈ root.nodes, n.Sound))

end Node

end DocWiring.Php
