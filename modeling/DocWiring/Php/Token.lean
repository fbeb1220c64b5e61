import DocWiring.Php.Node

/-! # Tokens

The tokens of a file are its lexemes without white space, the opening tags and comments.  Each of them
is a leaf of the syntax tree.
-/

namespace DocWiring.Php

namespace Lexeme

/-- White space, a comment or an opening tag, which may stand between any two tokens. -/
def isPassed (l : Lexeme) : Bool :=
  l.kind == .blank || l.kind == .openTag || l.kind == .comment

/-- The token is this sign. -/
def isSymbol (t : Lexeme) (symbol : String) : Bool :=
  t.kind == .symbol && t.text == symbol.toList

/-- A name in lower case, as keywords are compared; empty for any other token. -/
def word (t : Lexeme) : String :=
  if t.kind = .name then String.ofList (t.text.map Char.toLower) else ""

/-- The label of the leaf that a lexeme is, unless it is a keyword. -/
def label (l : Lexeme) : Label :=
  match l.kind with
  | .html => { kind := "text", named := true }
  | .openTag => { kind := "php_tag", named := true }
  | .comment => { kind := "comment", named := true }
  | .variable => { kind := "variable_name", named := true }
  | .name => { kind := if l.text.contains '\\' then "qualified_name" else "name", named := true }
  | .number => { kind := "number", named := true }
  | .string => { kind := "string", named := true }
  | .templateText => { kind := "string_content", named := true }
  | _ => { kind := String.ofList l.text, named := false }

/-- The keyword that a name is. -/
def keyword (t : Lexeme) : Label :=
  { kind := t.word, named := false }

/-- What a lexeme is in the syntax tree. -/
def piece (l : Lexeme) : Node :=
  if l.kind = .blank then .gap l.text else .leaf l.label l.text

end Lexeme

end DocWiring.Php
