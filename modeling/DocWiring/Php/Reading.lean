import DocWiring.ClassModel
import DocWiring.Error
import DocWiring.Php.Node
import DocWiring.Php.Quoted
import DocWiring.Source.Unit

/-! # Reading classes from a syntax tree

Only what the merge needs is kept of the tree of a PHP file: the name of a class, its parent, its
first line, the nearest doc comment before it, and the literal default of every property.  The parser
that makes the tree is a parameter.
-/

namespace DocWiring.Php

namespace Node

/-! ## Literals -/

/-- The parts of a text in double quotes that keep it a plain literal. -/
def plainTextParts : List String :=
  ["string_content", "string_value", "escape_sequence"]

/-- Without the sign of a binary text. -/
def withoutPrefix : List Char → List Char
  | 'b' :: rest => rest
  | 'B' :: rest => rest
  | text => text

/-- What stands between two quotes of the same kind. -/
def unquoted? (text : List Char) : Option String :=
  match text with
  | [] => none
  | q :: rest =>
    let quote? : Option Quote :=
      if q = '\'' then some .single else if q = '"' then some .double else none
    match quote? with
    | none => none
    | some quote =>
      if rest.getLast? = some q then some (String.ofList (quote.unescape rest.dropLast)) else none

/-- The text that a node stands for.  Code embedded in it makes it none. -/
def textLiteral? (n : Node) : Option String :=
  if n.kind == "encapsed_string" && n.namedParts.any fun part => !plainTextParts.contains part.kind then
    none
  else unquoted? (withoutPrefix n.text)

def isText (n : Node) : Bool :=
  n.kind == "string" || n.kind == "encapsed_string"

/-- A node as a literal, given the items that its parts are. -/
def literalOf (n : Node) (items : List ListItem) : Literal :=
  if n.isText then (n.textLiteral?.map Literal.string).getD .other
  else if n.kind == "array_creation_expression" then .list items
  else .other

/-- What the values in an item say.  An arrow makes the first of them the key and the last one the
value. -/
def itemOf (hasArrow : Bool) (values : List Literal) : ListItem :=
  match hasArrow, values with
  | true, key :: value :: more => .keyed key (more.getLast?.getD value)
  | false, [value] => .bare value
  | _, _ => .bare .other

mutual

/-- The value that a node is as a literal. -/
def literal : Node → Literal
  | gap text => literalOf (gap text) []
  | leaf label text => literalOf (leaf label text) []
  | branch label parts => literalOf (branch label parts) (items parts)

/-- The items among the parts of a list. -/
def items : List Node → List ListItem
  | [] => []
  | n :: ns =>
    if n.isNamed && n.kind == "array_element_initializer" then n.item :: items ns else items ns

/-- An item of a list. -/
def item : Node → ListItem
  | branch _ parts => itemOf (parts.any fun part => part.kind == "=>") (literals parts)
  | _ => itemOf false []

def literals : List Node → List Literal
  | [] => []
  | n :: ns => if n.isNamed then n.literal :: literals ns else literals ns

end

/-! ## Classes -/

/-- The value that a part of a property is.  Older grammars wrap it in an initializer. -/
def initial? (child : Node) : Option Node :=
  if child.kind == "property_initializer" then child.namedParts.head? else some child

/-- A property with its default. -/
def attribute? (element : Node) : Option AttributeDeclaration := do
  let children := element.namedParts
  let i ← children.findIdx? fun child => child.kind == "variable_name"
  let name ← children[i]?
  let value := (children.eraseIdx i).findSome? initial?
  return ⟨String.ofList (name.text.dropWhile (· == '$')), value.map literal⟩

def propertiesOf (declaration : Node) : List AttributeDeclaration :=
  (declaration.namedParts.filter fun part => part.kind == "property_element").filterMap attribute?

/-- The properties that the members in a body declare. -/
def attributesOf (body : Node) : List AttributeDeclaration :=
  (body.namedParts.filter fun part => part.kind == "property_declaration").flatMap propertiesOf

/-- The last part of a name that may be qualified. -/
def localName? (text : List Char) : Option String :=
  let last := (text.reverse.takeWhile (· != '\\')).reverse
  if last.isEmpty then none else some (String.ofList last)

/-- The class that a class extends, without the namespaces before it. -/
def parentName? (n : Node) : Option String := do
  let base ← n.namedParts.find? fun part => part.kind == "base_clause"
  let parent ← base.namedParts.find? fun part => part.kind == "name" || part.kind == "qualified_name"
  localName? parent.text

end Node

/-- Opened as a doc comment and not closed at once. -/
def isDocText (text : List Char) : Bool :=
  "/**".toList.isPrefixOf text && !"/**/".toList.isPrefixOf text

/-- The nearest doc comment among the comments directly before a node, whose parent starts on the row
`base`. -/
def leadingDoc? (base : Nat) : List Node → Option DocComment
  | [] => none
  | n :: before =>
    if n.isNode then
      if n.kind != "comment" then none
      else if isDocText n.text then
        some ⟨base + feeds before + 1, base + feeds (n :: before) + 1⟩
      else leadingDoc? base before
    else leadingDoc? base before

/-- What a class declaration says apart from where it stands. -/
structure Heading where
  name : String
  parent : Option String
  attributes : List AttributeDeclaration

def Node.heading? (n : Node) : Option Heading :=
  if n.kind == "class_declaration" then
    (n.childByField? "name").map fun name =>
      { name := String.ofList name.text
        parent := n.parentName?
        attributes := ((n.childByField? "body").map Node.attributesOf).getD [] }
  else none

/-- The class that is declared at a place. -/
def Place.class? (p : Place) : Option ClassNode :=
  p.node.heading?.map fun heading =>
    { name := heading.name
      parent := heading.parent
      startLine := p.row + 1
      docComment := leadingDoc? p.base p.before
      attributes := heading.attributes }

/-- The line of the first fault in a tree. -/
def Node.firstFaultLine? (root : Node) : Option Nat :=
  ((Place.walk Node.isNode [root.place]).find? fun p => p.node.isFault).map fun p => p.row + 1

/-- The classes that a tree declares. -/
def Node.classes (root : Node) : List ClassNode :=
  (Place.walk Node.isNamed [root.place]).filterMap Place.class?

/-- A parser of PHP.  It may refuse to start, and it may give no tree for a text. -/
structure SyntaxParser where
  refusal? : Option String
  parse : List Char → Option Node

/-- The classes of a file. -/
def SyntaxParser.classes (parser : SyntaxParser) (path : Path) (source : SourceUnit) :
    Except Error (List ClassNode) :=
  match parser.refusal? with
  | some refusal => .error (.parse path ("failed to load PHP grammar: " ++ refusal))
  | none =>
    match parser.parse source.text with
    | none => .error (.parse path "parser produced no tree")
    | some root =>
      if root.hasFault then
        .error (.parse path ("syntax error near line " ++ toString (root.firstFaultLine?.getD 1)))
      else .ok root.classes

end DocWiring.Php
