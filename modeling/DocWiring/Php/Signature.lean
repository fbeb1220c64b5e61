import DocWiring.Php.Cursor

/-! # Types, parameters and arguments

The parts of a signature.  The expressions in them are read by the grammar that is handed in, which
knows the constructs nested one level less deep.
-/

namespace DocWiring.Php

/-- What is known of an expression: whether something may be assigned to it, and whether it is a pattern
with gaps, which has no other use than that. -/
structure Value where
  assignable : Bool
  pattern : Bool

namespace Value

/-- An expression that nothing can be assigned to. -/
def computed : Value :=
  ⟨false, false⟩

/-- A variable, or what is found by way of one. -/
def place : Value :=
  ⟨true, false⟩

end Value

/-- The parsers for nested constructs.  An operation may be a pattern, an expression may not, and a
class tail is what follows the name of a class. -/
structure Grammar where
  operation : Parser Value
  statement : Parser Unit
  classTail : Parser Unit

namespace Grammar

/-- An operation that is no pattern. -/
def expression (g : Grammar) : Parser Unit := do
  let v ← g.operation
  if v.pattern then fail

def block (g : Grammar) : Parser Unit :=
  within "compound_statement" do
    expectSymbol "\x7b"
    manyUntil (·.isSymbol "\x7d") g.statement
    expectSymbol "\x7d"

end Grammar

/-- A name, which a keyword can be as well. -/
def name : Parser Lexeme :=
  expectKind .name

/-- A name without a backslash in it. -/
def plainName : Parser Lexeme :=
  expect fun t => t.kind == .name && !t.text.contains '\\'

/-- A type that is a name, or an intersection of names in parentheses. -/
def memberType : Parser Unit := do
  if ← acceptSymbol "(" then
    let _ ← name
    many do
      if ← acceptSymbol "&" then
        let _ ← name
        return true
      else return false
    expectSymbol ")"
  else
    let _ ← name

/-- A reference or a list of parameters goes on here, so that an ampersand before it is no type. -/
def startsParameter (t : Lexeme) : Bool :=
  t.kind == .variable || t.isSymbol "..." || t.isSymbol "&"

def typeHint : Parser Unit := do
  let _ ← acceptSymbol "?"
  memberType
  many do
    if ← acceptSymbol "|" then
      memberType
      return true
    else if (← seesSymbol "&") && !(← seesThen startsParameter) then
      let _ ← advance
      memberType
      return true
    else return false

/-- The type after a colon, if there is one. -/
def returnType : Parser Unit := do
  if ← acceptSymbol ":" then typeHint

/-- The words that qualify a declaration or a parameter. -/
def modifierWords : List String :=
  ["public", "protected", "private", "static", "abstract", "final", "readonly", "var"]

def isModifier (t : Lexeme) : Bool :=
  modifierWords.contains t.word

/-- The modifiers at this place; answers whether there is one. -/
def modifiers : Parser Bool := do
  let some ← sees isModifier
  manyWhile isModifier do
    let _ ← advance
  return some

/-- An argument, which may be spread, named or referred to.  Three dots alone stand for all arguments. -/
def argument (g : Grammar) : Parser Unit := do
  if ← acceptSymbol "..." then
    unless ← seesSymbol ")" do g.expression
  else
    if (← seesKind .name) && (← seesThen (·.isSymbol ":")) then
      let _ ← advance
      let _ ← advance
    let _ ← acceptSymbol "&"
    g.expression

def arguments (g : Grammar) : Parser Unit :=
  within "arguments" do
    expectSymbol "("
    commaList ")" (argument g)

def optionalArguments (g : Grammar) : Parser Unit := do
  if ← seesSymbol "(" then arguments g

/-- Groups of attributes; answers whether there is one. -/
def attributeGroups (g : Grammar) : Parser Bool := do
  let some ← seesSymbol "#["
  manyWhile (·.isSymbol "#[") do
    let _ ← advance
    commaList "]" do
      let _ ← name
      optionalArguments g
  return some

def parameter (g : Grammar) : Parser Unit := do
  let _ ← attributeGroups g
  let _ ← modifiers
  unless ← sees startsParameter do typeHint
  let _ ← acceptSymbol "&"
  let _ ← acceptSymbol "..."
  let _ ← expectKind .variable
  if ← acceptSymbol "=" then g.expression

def parameters (g : Grammar) : Parser Unit :=
  within "formal_parameters" do
    expectSymbol "("
    commaList ")" (parameter g)

end DocWiring.Php
