import DocWiring.Php.Signature

/-! # Expressions

An expression is a row of operands with operators between them.  How tightly an operator binds
makes no difference to what is an expression, so rows are not grouped.  An expression is one node of
the tree, and a quoted text or a list is one of its own kind only if it stands alone.
-/

namespace DocWiring.Php

/-- The signs that stand before an operand. -/
def leadingSymbols : List String :=
  ["!", "~", "+", "-", "@", "++", "--"]

/-- The words that stand before an operand. -/
def leadingWords : List String :=
  ["clone", "print", "throw", "include", "include_once", "require", "require_once"]

/-- The types that a value is turned into by their name in parentheses. -/
def castTypes : List String :=
  ["int", "integer", "bool", "boolean", "float", "double", "real", "string", "binary", "array",
    "object", "unset"]

/-- The words that are no operand on their own. -/
def reservedWords : List String :=
  ["abstract", "and", "array", "as", "break", "callable", "case", "catch", "class", "const",
    "continue", "declare", "default", "do", "echo", "else", "elseif", "enddeclare", "endfor",
    "endforeach", "endif", "endswitch", "endwhile", "extends", "final", "finally", "for",
    "foreach", "global", "goto", "if", "implements", "instanceof", "insteadof", "interface",
    "list", "namespace", "or", "private", "protected", "public", "return", "switch", "trait",
    "try", "use", "var", "while", "xor"]

/-- The signs between two operands. -/
def operatorSymbols : List String :=
  ["+", "-", "*", "/", "%", ".", "**", "<<", ">>", "<=>", "<", ">", "<=", ">=", "==", "!=", "===",
    "!==", "<>", "&", "|", "^", "&&", "||", "??"]

/-- The words between two operands. -/
def operatorWords : List String :=
  ["and", "or", "xor", "instanceof"]

/-- The signs that assign and compute at once. -/
def updateSymbols : List String :=
  ["+=", "-=", "*=", "/=", ".=", "%=", "**=", "??=", "&=", "|=", "^=", "<<=", ">>="]

/-- The token is one of these signs. -/
def Lexeme.isSymbolOf (t : Lexeme) (symbols : List String) : Bool :=
  symbols.any t.isSymbol

/-- Nothing can follow but the end of what is being read. -/
def endsOperand (t : Lexeme) : Bool :=
  t.isSymbolOf [";", ")", "]", "\x7d", ",", "=>", ":"] || t.kind == .closeTag ||
    t.kind == .embedClose

/-- An index in brackets, which may be empty. -/
def index (g : Grammar) : Parser Unit := do
  expectSymbol "["
  unless ← seesSymbol "]" do g.expression
  expectSymbol "]"

/-- An index in braces, as old versions have it. -/
def braceIndex (g : Grammar) : Parser Unit := do
  expectSymbol "\x7b"
  g.expression
  expectSymbol "\x7d"

/-- The hooks on a property begin with this token. -/
def opensHook (t : Lexeme) : Bool :=
  t.word == "get" || t.word == "set"

/-- Embedded code: a variable that is only named, or an expression. -/
def embedded (g : Grammar) : Parser Unit := do
  if (← seesKind .name) && (← seesThen fun t => t.kind == .embedClose || t.isSymbol "[") then
    let _ ← advance
    if ← seesSymbol "[" then index g
  else g.expression
  let _ ← expectKind .embedClose

/-- The kind of a text that opens in this way. -/
def templateKind (opening : Lexeme) : String :=
  match opening.text.getLast? with
  | some '"' => "encapsed_string"
  | some '\x60' => "shell_command_expression"
  | _ => "heredoc"

/-- A text that may have embedded code. -/
def template (g : Grammar) : Parser Unit :=
  labelled do
    let opening ← expectKind .templateOpen
    many do
      let t ← advance
      match t.kind with
      | .templateClose => return false
      | .templateText => return true
      | .variable => return true
      | .embedOpen =>
        embedded g
        return true
      | _ => fail
    return { kind := templateKind opening, named := true }

/-- What stands for a value in a list: an operation, or a variable that is referred to. -/
def itemValue (g : Grammar) : Parser Value := do
  if ← seesSymbol "&" then
    let (v, parts) ← gathered do
      let _ ← advance
      g.operation
    if v.pattern then fail
    push (.branch { kind := "by_ref", named := true } parts)
    return v
  else g.operation

/-- An item of a list.  Answers with what is known of the value. -/
def listItem (g : Grammar) : Parser Value := do
  let (v, parts) ← gathered do
    if ← seesSymbol "..." then
      within "variadic_unpacking" do
        expectSymbol "..."
        g.expression
      return .computed
    else
      let v ← itemValue g
      if ← acceptSymbol "=>" then
        if v.pattern then fail
        itemValue g
      else return v
  push (.branch { kind := "array_element_initializer", named := true } parts)
  return v

/-- The items of a list up to its closing sign, where `none` is a gap. -/
def itemsUntil (g : Grammar) (close : String) : Nat → Parser (List (Option Value))
  | 0 => fail
  | n + 1 => do
    if ← acceptSymbol close then return []
    else if ← acceptSymbol "," then return none :: (← itemsUntil g close n)
    else
      let v ← listItem g
      if ← acceptSymbol "," then return some v :: (← itemsUntil g close n)
      else
        expectSymbol close
        return [some v]

/-- A list in brackets or parentheses, perhaps after a word.  With a gap in it, it can only be assigned
to. -/
def listValue (g : Grammar) (kind : String) (word : Option String) (opening close : String) :
    Parser Value := do
  let (items, parts) ← gathered do
    if let some w := word then expectWord w
    expectSymbol opening
    itemsUntil g close (← get).rounds
  push (.branch { kind := kind, named := true } parts)
  return {
    assignable := (items.filterMap id).all (·.assignable)
    pattern := items.any fun i => i.all (·.pattern) }

/-- Type casts and the words and signs before an operand; answers whether there is one here. -/
def leading (g : Grammar) : Parser Bool := do
  match ← peek? with
  | none => return false
  | some t =>
    if t.isSymbolOf leadingSymbols || leadingWords.contains t.word then
      let _ ← advance
      return true
    else if t.isSymbol "(" && (← seesThen fun u => castTypes.contains u.word) &&
        ((← peekAt? 2).any fun u => u.isSymbol ")") then
      let _ ← advance
      let _ ← advance
      let _ ← advance
      return true
    else if t.word == "static" && (← seesThen fun u => u.word == "fn" || u.word == "function") then
      let _ ← advance
      return true
    else if t.word == "fn" then
      let _ ← advance
      let _ ← acceptSymbol "&"
      parameters g
      returnType
      expectSymbol "=>"
      return true
    else attributeGroups g

/-- A variable that is named by another one or by an expression. -/
def indirectVariable (g : Grammar) : Parser Unit := do
  expectSymbol "$"
  manyWhile (·.isSymbol "$") do
    let _ ← advance
  if ← acceptSymbol "\x7b" then
    g.expression
    expectSymbol "\x7d"
  else
    let _ ← expectKind .variable

/-- The name of a member, which may be computed. -/
def memberName (g : Grammar) : Parser Unit := do
  if ← acceptSymbol "\x7b" then
    g.expression
    expectSymbol "\x7d"
  else if ← seesSymbol "$" then indirectVariable g
  else
    let _ ← expect fun t => t.kind == .name || t.kind == .variable

/-- Ways into a value, without calls; answers whether there is one here. -/
def memberStep (g : Grammar) : Parser Bool := do
  if ← seesSymbol "[" then
    index g
    return true
  else if ← accept fun t => t.isSymbolOf ["->", "?->", "::"] then
    memberName g
    return true
  else return false

/-- What `new` makes an object of: a class in place, or a class that is named or computed. -/
def newObject (g : Grammar) : Parser Unit := do
  expectWord "new"
  let _ ← attributeGroups g
  if (← seesWord "class") || ((← seesWord "readonly") && (← seesThen (·.word == "class"))) then
    let _ ← acceptWord "readonly"
    expectWord "class"
    optionalArguments g
    g.classTail
  else
    if ← acceptSymbol "(" then
      g.expression
      expectSymbol ")"
    else if ← seesSymbol "$" then indirectVariable g
    else
      let _ ← expect fun t => t.kind == .name || t.kind == .variable
    many (memberStep g)
    optionalArguments g

/-- A function without a name. -/
def closure (g : Grammar) : Parser Unit := do
  expectWord "function"
  let _ ← acceptSymbol "&"
  parameters g
  if ← acceptWord "use" then
    expectSymbol "("
    commaList ")" do
      let _ ← acceptSymbol "&"
      let _ ← expectKind .variable
  returnType
  g.block

/-- An arm of a match: conditions or `default`, and a value. -/
def matchArm (g : Grammar) : Parser Unit := do
  if (← seesWord "default") && (← seesThen fun t => t.isSymbol "=>" || t.isSymbol ",") then
    let _ ← advance
    let _ ← acceptSymbol ","
    expectSymbol "=>"
  else
    commaList "=>" g.expression
  g.expression

def matchValue (g : Grammar) : Parser Unit := do
  expectWord "match"
  expectSymbol "("
  g.expression
  expectSymbol ")"
  expectSymbol "\x7b"
  commaList "\x7d" (matchArm g)

/-- What `yield` hands out, if anything. -/
def yieldValue (g : Grammar) : Parser Unit := do
  expectWord "yield"
  let _ ← acceptWord "from"
  unless ← sees endsOperand do
    g.expression
    if ← acceptSymbol "=>" then g.expression

/-- An operand that starts with a word. -/
def wordOperand (g : Grammar) (word : String) : Parser Value := do
  if word == "array" && (← seesThen (·.isSymbol "(")) then
    let v ← listValue g "array_creation_expression" "array" "(" ")"
    if v.pattern then fail else return v
  else if word == "list" then listValue g "list_literal" "list" "(" ")"
  else if word == "new" then
    newObject g
    return .computed
  else if word == "function" then
    closure g
    return .computed
  else if word == "match" && (← seesThen (·.isSymbol "(")) then
    matchValue g
    return .computed
  else if word == "yield" then
    yieldValue g
    return .computed
  else if reservedWords.contains word then fail
  else
    let _ ← advance
    return .computed

/-- An operand without the ways into it. -/
def primary (g : Grammar) : Parser Value := do
  match ← peek? with
  | none => fail
  | some t =>
    match t.kind with
    | .variable => do
      let _ ← advance
      return .place
    | .number => do
      let _ ← advance
      return .computed
    | .string => do
      let _ ← advance
      return .computed
    | .templateOpen => do
      template g
      return .computed
    | .name => wordOperand g t.word
    | .symbol =>
      if t.isSymbol "(" then do
        let _ ← advance
        g.expression
        expectSymbol ")"
        return .computed
      else if t.isSymbol "[" then listValue g "array_creation_expression" none "[" "]"
      else if t.isSymbol "$" then do
        indirectVariable g
        return .place
      else fail
    | _ => fail

/-- The ways into a value, and calls. -/
def accesses (g : Grammar) (v : Value) : Nat → Parser Value
  | 0 => fail
  | n + 1 => do
    if v.pattern then return v
    else if ← memberStep g then accesses g .place n
    else if v.assignable && (← seesSymbol "\x7b") && !(← seesThen opensHook) then
      braceIndex g
      accesses g .place n
    else if ← seesSymbol "(" then
      arguments g
      accesses g .place n
    else if ← accept fun t => t.isSymbol "++" || t.isSymbol "--" then accesses g .computed n
    else return v

/-- An operand with what stands before and after it. -/
def operand (g : Grammar) : Parser Value := do
  many (leading g)
  let v ← primary g
  accesses g v (← get).rounds

/-- The operators and operands that follow an operand. -/
def operations (g : Grammar) (v : Value) : Nat → Parser Value
  | 0 => fail
  | n + 1 => do
    match ← peek? with
    | none => return v
    | some t =>
      if t.isSymbol "=" && v.assignable then
        let _ ← advance
        let _ ← acceptSymbol "&"
        operations g (← operand g) n
      else if t.isSymbolOf updateSymbols && v.assignable then
        let _ ← advance
        operations g (← operand g) n
      else if v.pattern then return v
      else if t.isSymbolOf operatorSymbols || operatorWords.contains t.word then
        let _ ← advance
        operations g (← operand g) n
      else if t.isSymbol "?" then
        let _ ← advance
        unless ← acceptSymbol ":" do
          g.expression
          expectSymbol ":"
        operations g (← operand g) n
      else return v

/-- A row of operands with operators between them, as one node. -/
def operation (g : Grammar) : Parser Value := do
  let (v, parts) ← gathered do
    let v ← operand g
    operations g v (← get).rounds
  match parts with
  | [part] => push part
  | _ => push (.branch { kind := "expression", named := true } parts)
  return v

end DocWiring.Php
