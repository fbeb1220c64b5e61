import DocWiring.Php.Expression

/-! # Classes and their members

A class, its parent, its body and the properties in it are nodes of their own.
-/

namespace DocWiring.Php

/-- Names with commas between them. -/
def nameList : Parser Unit :=
  commaSeparated do
    let _ ← name

/-- The classes after `extends`, if there are any. -/
def parentClause : Parser Unit := do
  if ← seesWord "extends" then
    within "base_clause" do
      expectWord "extends"
      nameList

def implementsClause : Parser Unit := do
  if ← seesWord "implements" then
    within "class_interface_clause" do
      expectWord "implements"
      nameList

/-- A property and its value. -/
def property (g : Grammar) : Parser Unit :=
  within "property_element" do
    let _ ← expectKind .variable
    if ← acceptSymbol "=" then g.expression

/-- A body of a hook on a property. -/
def hook (g : Grammar) : Parser Unit := do
  let _ ← attributeGroups g
  let _ ← modifiers
  let _ ← acceptSymbol "&"
  let _ ← plainName
  if ← seesSymbol "(" then parameters g
  if ← acceptSymbol "=>" then
    g.expression
    semicolon
  else if ← seesSymbol "\x7b" then g.block
  else semicolon

/-- The properties after their modifiers, and the hooks on them. -/
def properties (g : Grammar) : Parser Unit := do
  unless ← seesKind .variable do typeHint
  commaSeparated (property g)
  if ← seesSymbol "\x7b" then
    within "property_hook_list" do
      expectSymbol "\x7b"
      manyUntil (·.isSymbol "\x7d") (hook g)
      expectSymbol "\x7d"
  else semicolon

/-- Constants after the word `const`, which may be typed. -/
def constants (g : Grammar) : Parser Unit := do
  expectWord "const"
  unless (← seesKind .name) && (← seesThen (·.isSymbol "=")) do typeHint
  commaSeparated do
    let _ ← plainName
    expectSymbol "="
    g.expression
  semicolon

/-- A function with a name; a method may lack its body. -/
def namedFunction (g : Grammar) (method : Bool) : Parser Unit := do
  expectWord "function"
  let _ ← acceptSymbol "&"
  let _ ← plainName
  parameters g
  returnType
  if method && !(← seesSymbol "\x7b") then semicolon else g.block

/-- How a clash between the traits of a class is settled, or a method of theirs renamed. -/
def traitRule : Parser Unit := do
  let _ ← name
  if ← acceptSymbol "::" then
    let _ ← name
  if ← acceptWord "insteadof" then nameList
  else
    expectWord "as"
    let qualified ← modifiers
    if !qualified || (← seesKind .name) then
      let _ ← plainName
  semicolon

def traitUse : Parser Unit := do
  expectWord "use"
  nameList
  if ← acceptSymbol "\x7b" then
    manyUntil (·.isSymbol "\x7d") traitRule
    expectSymbol "\x7d"
  else semicolon

def enumCase (g : Grammar) : Parser Unit := do
  expectWord "case"
  let _ ← plainName
  if ← acceptSymbol "=" then g.expression
  semicolon

/-- A member of a class.  Answers with its kind. -/
def memberKind (g : Grammar) : Parser String := do
  let _ ← attributeGroups g
  let qualified ← modifiers
  if ← seesWord "const" then
    constants g
    return "const_declaration"
  else if ← seesWord "function" then
    namedFunction g true
    return "method_declaration"
  else if qualified then
    properties g
    return "property_declaration"
  else if ← seesWord "use" then
    traitUse
    return "use_declaration"
  else if ← seesWord "case" then
    enumCase g
    return "enum_case"
  else fail

/-- A member of a class, or text outside the tags between two members. -/
def member (g : Grammar) : Parser Unit := do
  unless ← accept fun t => t.kind == .closeTag || t.kind == .html do
    labelled do
      return { kind := ← memberKind g, named := true }

def classBody (g : Grammar) : Parser Unit :=
  labelled do
    expectSymbol "\x7b"
    manyUntil (·.isSymbol "\x7d") (member g)
    expectSymbol "\x7d"
    return { kind := "declaration_list", named := true, field := some "body" }

def classTail (g : Grammar) : Parser Unit := do
  parentClause
  implementsClause
  classBody g

/-- A class with a name, after its attributes and modifiers. -/
def classDeclaration (g : Grammar) : Parser Unit := do
  expectWord "class"
  if ← sees fun t => t.kind == .name && !t.text.contains '\\' then
    let _ ← advanceAs fun _ => { kind := "name", named := true, field := some "name" }
  else fail
  classTail g

/-- An interface, a trait or an enumeration, after the word for it. -/
def otherDeclaration (g : Grammar) : Parser Unit := do
  let _ ← advance
  let _ ← plainName
  if ← acceptSymbol ":" then typeHint
  classTail g

end DocWiring.Php
