import DocWiring.Php.Declaration

/-! # Statements

A statement ends with a semicolon, a closing tag or its last block.  Text outside the tags is a
statement of its own.
-/

namespace DocWiring.Php

def hasWord (words : List String) (t : Lexeme) : Bool :=
  words.contains t.word

def condition (g : Grammar) : Parser Unit := do
  expectSymbol "("
  g.expression
  expectSymbol ")"

/-- Expressions with commas between them, of which there may be none, up to a closing sign. -/
def optionalExpressions (g : Grammar) (close : String) : Parser Unit := do
  unless ← seesSymbol close do commaSeparated g.expression
  expectSymbol close

/-- A body: a statement, or statements from a colon up to the word that ends them. -/
def body (g : Grammar) (closing : String) : Parser Unit := do
  if ← acceptSymbol ":" then
    manyUntil (·.word == closing) g.statement
    expectWord closing
    semicolon
  else g.statement

/-- The branches of an `if` whose bodies are statements. -/
def branches (g : Grammar) : Parser Unit := do
  g.statement
  manyWhile (·.word == "elseif") do
    let _ ← advance
    condition g
    g.statement
  if ← acceptWord "else" then g.statement

/-- The branches of an `if` whose bodies follow a colon. -/
def colonBranches (g : Grammar) : Parser Unit := do
  let statements := manyUntil (hasWord ["elseif", "else", "endif"]) g.statement
  expectSymbol ":"
  statements
  manyWhile (·.word == "elseif") do
    let _ ← advance
    condition g
    expectSymbol ":"
    statements
  if ← acceptWord "else" then
    expectSymbol ":"
    statements
  expectWord "endif"
  semicolon

def ifStatement (g : Grammar) : Parser Unit := do
  expectWord "if"
  condition g
  if ← seesSymbol ":" then colonBranches g else branches g

def whileStatement (g : Grammar) : Parser Unit := do
  expectWord "while"
  condition g
  body g "endwhile"

def doStatement (g : Grammar) : Parser Unit := do
  expectWord "do"
  g.statement
  expectWord "while"
  condition g
  semicolon

def forStatement (g : Grammar) : Parser Unit := do
  expectWord "for"
  expectSymbol "("
  optionalExpressions g ";"
  optionalExpressions g ";"
  optionalExpressions g ")"
  body g "endfor"

/-- What a loop over a collection assigns to, which may be a pattern. -/
def loopTarget (g : Grammar) : Parser Unit := do
  let _ ← acceptSymbol "&"
  let v ← g.operation
  unless v.assignable do fail

def foreachStatement (g : Grammar) : Parser Unit := do
  expectWord "foreach"
  expectSymbol "("
  g.expression
  expectWord "as"
  loopTarget g
  if ← acceptSymbol "=>" then loopTarget g
  expectSymbol ")"
  body g "endforeach"

/-- A case of a `switch` with its statements. -/
def switchCase (g : Grammar) (closes : Lexeme → Bool) : Parser Unit := do
  if ← acceptWord "case" then g.expression else expectWord "default"
  unless ← acceptSymbol ":" do semicolon
  manyUntil (fun t => hasWord ["case", "default"] t || closes t) g.statement

def switchStatement (g : Grammar) : Parser Unit := do
  expectWord "switch"
  condition g
  let colon ← acceptSymbol ":"
  unless colon do expectSymbol "\x7b"
  manyWhile (fun t => t.kind == .closeTag || t.kind == .html) g.statement
  let closes := fun t : Lexeme => if colon then t.word == "endswitch" else t.isSymbol "\x7d"
  manyUntil closes (switchCase g closes)
  let _ ← advance
  if colon then semicolon

def declareStatement (g : Grammar) : Parser Unit := do
  expectWord "declare"
  expectSymbol "("
  commaList ")" do
    let _ ← plainName
    expectSymbol "="
    g.expression
  body g "enddeclare"

/-- A word with an expression that may be missing, such as `return`. -/
def jumpStatement (g : Grammar) : Parser Unit := do
  let _ ← advance
  unless ← sees endsOperand do g.expression
  semicolon

def echoStatement (g : Grammar) : Parser Unit := do
  let _ ← advance
  commaSeparated g.expression
  semicolon

def globalStatement (g : Grammar) : Parser Unit := do
  expectWord "global"
  commaSeparated do
    if ← seesSymbol "$" then indirectVariable g
    else
      let _ ← expectKind .variable
  semicolon

/-- Variables that are kept between the calls of a function. -/
def staticStatement (g : Grammar) : Parser Unit := do
  expectWord "static"
  commaSeparated do
    let _ ← expectKind .variable
    if ← acceptSymbol "=" then g.expression
  semicolon

def gotoStatement : Parser Unit := do
  expectWord "goto"
  let _ ← plainName
  semicolon

def tryStatement (g : Grammar) : Parser Unit := do
  expectWord "try"
  g.block
  unless ← sees (hasWord ["catch", "finally"]) do fail
  manyWhile (·.word == "catch") do
    let _ ← advance
    expectSymbol "("
    typeHint
    let _ ← accept (·.kind == .variable)
    expectSymbol ")"
    g.block
  if ← acceptWord "finally" then g.block

def namespaceStatement (g : Grammar) : Parser Unit := do
  expectWord "namespace"
  let named ← accept (·.kind == .name)
  if ← seesSymbol "\x7b" then g.block
  else if named then semicolon
  else fail

/-- The name that an import is known by here. -/
def importAlias : Parser Unit := do
  if ← acceptWord "as" then
    let _ ← plainName

/-- The word that says that an import is no class. -/
def importKind : Parser Unit := do
  if (← sees (hasWord ["function", "const"])) && (← seesThen (·.kind == .name)) then
    let _ ← advance

/-- A name that is imported, or a group of names in one namespace. -/
def importClause : Parser Unit := do
  importKind
  let _ ← name
  if ← acceptSymbol "\\" then
    expectSymbol "\x7b"
    commaList "\x7d" do
      importKind
      let _ ← name
      importAlias
  else importAlias

def useStatement : Parser Unit := do
  expectWord "use"
  commaSeparated importClause
  semicolon

def expressionStatement (g : Grammar) : Parser Unit := do
  g.expression
  semicolon

/-- The token goes on with the name of a function, so that a declaration and no closure starts. -/
def startsFunctionName : Parser Bool := do
  if ← seesThen (·.kind == .name) then return true
  else return (← seesThen (·.isSymbol "&")) && ((← peekAt? 2).any fun t => t.kind == .name)

/-- The number of words from here on that qualify a class. -/
def classModifiers : Parser Nat := do
  return ((← get).rest.takeWhile (hasWord ["abstract", "final", "readonly"])).length

/-- A statement that starts with a word.  Answers with its kind. -/
def wordStatement (g : Grammar) (word : String) : Parser String := do
  match word with
  | "if" => ifStatement g; return "if_statement"
  | "while" => whileStatement g; return "while_statement"
  | "do" => doStatement g; return "do_statement"
  | "for" => forStatement g; return "for_statement"
  | "foreach" => foreachStatement g; return "foreach_statement"
  | "switch" => switchStatement g; return "switch_statement"
  | "declare" => declareStatement g; return "declare_statement"
  | "break" => jumpStatement g; return "break_statement"
  | "continue" => jumpStatement g; return "continue_statement"
  | "return" => jumpStatement g; return "return_statement"
  | "echo" => echoStatement g; return "echo_statement"
  | "global" => globalStatement g; return "global_declaration"
  | "goto" => gotoStatement; return "goto_statement"
  | "try" => tryStatement g; return "try_statement"
  | "namespace" => namespaceStatement g; return "namespace_definition"
  | "use" => useStatement; return "namespace_use_declaration"
  | "const" => constants g; return "const_declaration"
  | "class" => classDeclaration g; return "class_declaration"
  | "interface" => otherDeclaration g; return "interface_declaration"
  | "trait" => otherDeclaration g; return "trait_declaration"
  | "enum" =>
    if ← seesThen fun t => t.kind == .name && t.word != "instanceof" then
      otherDeclaration g
      return "enum_declaration"
    else
      expressionStatement g
      return "expression_statement"
  | "static" =>
    if ← seesThen (·.kind == .variable) then
      staticStatement g
      return "function_static_declaration"
    else
      expressionStatement g
      return "expression_statement"
  | "function" =>
    if ← startsFunctionName then
      namedFunction g false
      return "function_definition"
    else
      expressionStatement g
      return "expression_statement"
  | _ =>
    let n ← classModifiers
    if n > 0 && (← peekAt? n).any fun t => t.word == "class" then
      let _ ← modifiers
      classDeclaration g
      return "class_declaration"
    else if ← seesThen (·.isSymbol ":") then
      let _ ← plainName
      expectSymbol ":"
      return "named_label_statement"
    else
      expressionStatement g
      return "expression_statement"

/-- A statement that is a node of its own kind, with the attributes before it. -/
def plainStatement (g : Grammar) : Parser Unit :=
  labelled do
    let _ ← attributeGroups g
    match ← peek? with
    | none => fail
    | some t =>
      match t.kind with
      | .openEcho =>
        echoStatement g
        return { kind := "echo_statement", named := true }
      | .name => return { kind := ← wordStatement g t.word, named := true }
      | _ =>
        expressionStatement g
        return { kind := "expression_statement", named := true }

def statement (g : Grammar) : Parser Unit := do
  if ← accept fun t => t.kind == .html || t.kind == .closeTag || t.isSymbol ";" then return
  else if ← seesSymbol "\x7b" then g.block
  else plainStatement g

/-- The parsers for constructs that are nested up to a depth. -/
def grammar : Nat → Grammar
  | 0 => ⟨fail, fail, fail⟩
  | n + 1 =>
    let g := grammar n
    ⟨operation g, statement g, classTail g⟩

end DocWiring.Php
