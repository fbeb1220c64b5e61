import DocWiring.Php.Token

/-! # Reading tokens

A parser takes tokens from the front of those that are left, and builds the nodes of a syntax tree in
which only white space, comments and opening tags are missing.  It fails with the number of tokens
before the one that it cannot take.
-/

namespace DocWiring.Php

/-- The tokens that are left, the number of those taken and of all, and the nodes built from those taken
since the node around them began, the last one first. -/
structure Cursor where
  rest : List Lexeme
  taken : Nat
  total : Nat
  built : List Node

/-- In front of all the tokens of a file. -/
def Cursor.ofTokens (tokens : List Lexeme) : Cursor :=
  ⟨tokens, 0, tokens.length, []⟩

/-- More rounds than there are tokens left. -/
def Cursor.rounds (s : Cursor) : Nat :=
  s.total - s.taken + 1

abbrev Parser := StateT Cursor (Except Nat)

def fail : Parser α := do
  throw (← get).taken

def push (n : Node) : Parser Unit :=
  modify fun s => { s with built := n :: s.built }

/-- Takes the next token as a leaf with a label. -/
def advanceAs (label : Lexeme → Label) : Parser Lexeme := do
  let s ← get
  match s.rest with
  | [] => fail
  | t :: rest =>
    set { s with rest := rest, taken := s.taken + 1 }
    push (.leaf (label t) t.text)
    return t

def advance : Parser Lexeme :=
  advanceAs Lexeme.label

/-- Does a step and takes the nodes that it builds apart from those before. -/
def gathered (step : Parser α) : Parser (α × List Node) := do
  let outer := (← get).built
  modify fun s => { s with built := [] }
  let a ← step
  let s ← get
  set { s with built := outer }
  return (a, s.built.reverse)

/-- Makes one node of what a step builds.  The step answers with the label. -/
def labelled (step : Parser Label) : Parser Unit := do
  let (label, parts) ← gathered step
  push (.branch label parts)

/-- Makes one node of this kind of what a step builds. -/
def within (kind : String) (step : Parser Unit) : Parser Unit :=
  labelled do
    step
    return { kind := kind, named := true }

/-- The token that comes after `n` further ones. -/
def peekAt? (n : Nat) : Parser (Option Lexeme) := do
  return (← get).rest[n]?

def peek? : Parser (Option Lexeme) :=
  peekAt? 0

/-- The next token fits. -/
def sees (fits : Lexeme → Bool) : Parser Bool := do
  return (← peek?).any fits

/-- The token after the next one fits. -/
def seesThen (fits : Lexeme → Bool) : Parser Bool := do
  return (← peekAt? 1).any fits

def seesSymbol (symbol : String) : Parser Bool :=
  sees (·.isSymbol symbol)

def seesWord (word : String) : Parser Bool :=
  sees (·.word == word)

def seesKind (kind : Kind) : Parser Bool :=
  sees (·.kind == kind)

/-- Takes the next token if it fits. -/
def accept (fits : Lexeme → Bool) : Parser Bool := do
  if ← sees fits then
    let _ ← advance
    return true
  else return false

def acceptSymbol (symbol : String) : Parser Bool :=
  accept (·.isSymbol symbol)

def acceptWord (word : String) : Parser Bool := do
  if ← seesWord word then
    let _ ← advanceAs Lexeme.keyword
    return true
  else return false

def expect (fits : Lexeme → Bool) : Parser Lexeme := do
  if ← sees fits then advance else fail

def expectSymbol (symbol : String) : Parser Unit := do
  let _ ← expect (·.isSymbol symbol)

def expectWord (word : String) : Parser Unit := do
  unless ← acceptWord word do fail

def expectKind (kind : Kind) : Parser Lexeme :=
  expect (·.kind == kind)

/-- Does a step again as long as it says that there is more. -/
def repeated (step : Parser Bool) : Nat → Parser Unit
  | 0 => fail
  | n + 1 => do if ← step then repeated step n

/-- Does a step again as long as it says that there is more.  Every step but the last one takes a
token, so that the tokens left are enough for the count. -/
def many (step : Parser Bool) : Parser Unit := do
  repeated step (← get).rounds

/-- Does a step for as long as the next token fits. -/
def manyWhile (fits : Lexeme → Bool) (step : Parser Unit) : Parser Unit :=
  many do
    if ← sees fits then
      step
      return true
    else return false

/-- Does a step until the next token fits. -/
def manyUntil (fits : Lexeme → Bool) (step : Parser Unit) : Parser Unit :=
  many do
    if ← sees fits then return false
    else
      step
      return true

/-- One item or more, with commas between them. -/
def commaSeparated (item : Parser Unit) : Parser Unit := do
  item
  many do
    if ← acceptSymbol "," then
      item
      return true
    else return false

/-- Items with commas between them, and perhaps one after the last, up to a closing sign. -/
def commaList (close : String) (item : Parser Unit) : Parser Unit := do
  many do
    if ← seesSymbol close then return false
    else
      item
      acceptSymbol ","
  expectSymbol close

/-- The end of a statement: a semicolon or a closing tag. -/
def semicolon : Parser Unit := do
  unless ← accept (fun t => t.isSymbol ";" || t.kind == .closeTag) do fail

end DocWiring.Php
