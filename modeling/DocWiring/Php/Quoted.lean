/-! # Quoted texts

What the text between two quotes stands for.  A backslash takes the next character with it.  Only
a few pairs stand for something else than themselves, and which ones depends on the quote.
-/

namespace DocWiring.Php

/-- The kind of quote a text stands in. -/
inductive Quote where
  | single
  | double
deriving DecidableEq, Repr

namespace Quote

def char : Quote → Char
  | .single => '\''
  | .double => '"'

/-- What a backslash and the character after it stand for, if not for themselves. -/
def escaped? : Quote → Char → Option Char
  | _, '\\' => some '\\'
  | .single, '\'' => some '\''
  | .double, '"' => some '"'
  | .double, '$' => some '$'
  | .double, 'n' => some '\n'
  | .double, 't' => some '\t'
  | .double, 'r' => some '\r'
  | _, _ => none

/-- The text that is meant by what stands between two quotes. -/
def unescape (q : Quote) : List Char → List Char
  | [] => []
  | ['\\'] => ['\\']
  | '\\' :: c :: r =>
    match q.escaped? c with
    | some d => d :: unescape q r
    | none => '\\' :: c :: unescape q r
  | c :: r => c :: unescape q r

/-- How a character is written between two quotes. -/
def escapeChar : Quote → Char → List Char
  | _, '\\' => ['\\', '\\']
  | .single, '\'' => ['\\', '\'']
  | .double, '"' => ['\\', '"']
  | .double, '$' => ['\\', '$']
  | .double, '\n' => ['\\', 'n']
  | .double, '\t' => ['\\', 't']
  | .double, '\r' => ['\\', 'r']
  | _, c => [c]

/-- How a text is written between two quotes. -/
def escape (q : Quote) (text : List Char) : List Char :=
  text.flatMap q.escapeChar

end Quote

end DocWiring.Php
