/-! # Lexemes of PHP

A PHP file is cut into lexemes, white space, comments and the text outside the PHP tags included,
so that the lexemes put together are the file.  What the next lexeme is depends on where it
stands: outside the tags, in code, in a quoted text with embedded code, or in a heredoc.
-/

namespace DocWiring.Php

inductive Kind where
  | html
  | openTag
  | openEcho
  | closeTag
  | blank
  | comment
  | variable
  | name
  | number
  | string
  | symbol
  | templateOpen
  | templateText
  | templateClose
  | embedOpen
  | embedClose
deriving DecidableEq, Repr

/-- A piece of a file and what it is. -/
structure Lexeme where
  kind : Kind
  text : List Char
deriving DecidableEq, Repr

/-- The number of ends of line in a text. -/
def lineBreaks (text : List Char) : Nat :=
  text.count '\n'

/-- Where a lexeme stands.  Embedded code counts the braces that are open in it; a heredoc knows
its label and whether a line starts here. -/
inductive Mode where
  | html
  | code
  | embedded (depth : Nat)
  | quoted (quote : Char)
  | heredoc (label : List Char) (lineStart : Bool)
  | nowdoc (label : List Char)
deriving DecidableEq, Repr

/-- White space between tokens. -/
def isSpace (c : Char) : Bool :=
  let n := c.toNat
  (9 ≤ n && n ≤ 13) || n == 0x20 || n == 0xA0 || n == 0x200B || n == 0x2060 || n == 0xFEFF

/-- Starts a name: a letter, an underscore, or a character beyond ASCII of at most four hexadecimal
digits that is no white space. -/
def isNameStart (c : Char) : Bool :=
  c.isAlpha || c == '_' || (0x80 ≤ c.toNat && c.toNat ≤ 0xFFFF && !isSpace c)

/-- Goes on with a name. -/
def isNamePart (c : Char) : Bool :=
  isNameStart c || c.isDigit

def startsName : List Char → Bool
  | c :: _ => isNameStart c
  | [] => false

def nameWidth (cs : List Char) : Nat :=
  (cs.takeWhile isNamePart).length

/-- The number of characters of the further parts of a qualified name, each after a backslash. -/
def furtherWidth : Nat → List Char → Nat
  | 0, _ => 0
  | fuel + 1, '\\' :: r =>
    if startsName r then
      let w := nameWidth r
      1 + w + furtherWidth fuel (r.drop w)
    else 0
  | _ + 1, _ => 0

/-- The number of characters of a name that may be qualified. -/
def qualifiedWidth (cs : List Char) : Nat :=
  let w := nameWidth cs
  w + furtherWidth cs.length (cs.drop w)

def digitsWidth (isDigit : Char → Bool) (cs : List Char) : Nat :=
  (cs.takeWhile fun c => isDigit c || c == '_').length

def exponentWidth : List Char → Nat
  | e :: r =>
    if e == 'e' || e == 'E' then
      let sign :=
        match r with
        | s :: _ => if s == '+' || s == '-' then 1 else 0
        | [] => 0
      match r.drop sign with
      | d :: _ => if d.isDigit then 1 + sign + digitsWidth Char.isDigit (r.drop sign) else 0
      | [] => 0
    else 0
  | [] => 0

def isHexDigit (c : Char) : Bool :=
  c.isDigit || ('a' ≤ c && c ≤ 'f') || ('A' ≤ c && c ≤ 'F')

def decimalWidth (cs : List Char) : Nat :=
  let whole := digitsWidth Char.isDigit cs
  let fraction :=
    match cs.drop whole with
    | '.' :: '.' :: _ => 0
    | '.' :: r => 1 + digitsWidth Char.isDigit r
    | _ => 0
  let w := whole + fraction
  w + exponentWidth (cs.drop w)

def numberWidth : List Char → Nat
  | '0' :: x :: d :: r =>
    if (x == 'x' || x == 'X') && isHexDigit d then 2 + digitsWidth isHexDigit (d :: r)
    else if (x == 'b' || x == 'B' || x == 'o' || x == 'O') && d.isDigit then
      2 + digitsWidth Char.isDigit (d :: r)
    else decimalWidth ('0' :: x :: d :: r)
  | cs => decimalWidth cs

/-- The number of characters of a text after its single quote, closing quote included. -/
def singleQuotedWidth? : List Char → Option Nat
  | [] => none
  | '\'' :: _ => some 1
  | '\\' :: _ :: r => (singleQuotedWidth? r).map (· + 2)
  | _ :: r => (singleQuotedWidth? r).map (· + 1)

/-- The number of characters of a comment up to the end of its line or of the code. -/
def lineCommentWidth : List Char → Nat
  | [] => 0
  | '\n' :: _ => 0
  | '\r' :: _ => 0
  | '?' :: '>' :: _ => 0
  | _ :: r => 1 + lineCommentWidth r

/-- The number of characters of a comment after its opening sign, closing sign included. -/
def blockCommentWidth? : List Char → Option Nat
  | [] => none
  | '*' :: '/' :: _ => some 2
  | _ :: r => (blockCommentWidth? r).map (· + 1)

/-- The number of characters outside the tags. -/
def htmlWidth : List Char → Nat
  | [] => 0
  | '<' :: '?' :: _ => 0
  | _ :: r => 1 + htmlWidth r

/-- The characters are the label of a heredoc and no longer name. -/
def startsLabel (label cs : List Char) : Bool :=
  label.isPrefixOf cs &&
    match cs.drop label.length with
    | c :: _ => !isNamePart c
    | [] => true

/-- The number of characters of the closing label at the start of a line, white space before it
included. -/
def closingLabelWidth? (label cs : List Char) : Option Nat :=
  let indent := (cs.takeWhile fun c => c == ' ' || c == '\t').length
  if startsLabel label (cs.drop indent) then some (indent + label.length) else none

/-- Embedded code or a variable starts here. -/
def startsEmbedded : List Char → Bool
  | '{' :: '$' :: _ => true
  | '$' :: '{' :: _ => true
  | '$' :: r => startsName r
  | _ => false

/-- The number of characters of plain text before a quote or embedded code. -/
def quotedTextWidth (quote : Char) : List Char → Nat
  | [] => 0
  | ['\\'] => 1
  | '\\' :: _ :: r => 2 + quotedTextWidth quote r
  | c :: r => if c == quote || startsEmbedded (c :: r) then 0 else 1 + quotedTextWidth quote r

/-- The number of characters of plain text up to embedded code or to the end of the line, which is
included. -/
def heredocTextWidth : List Char → Nat
  | [] => 0
  | '\n' :: _ => 1
  | ['\\'] => 1
  | '\\' :: c :: r => if c == '\n' then 2 else 2 + heredocTextWidth r
  | c :: r => if startsEmbedded (c :: r) then 0 else 1 + heredocTextWidth r

def lineWidth : List Char → Nat
  | [] => 0
  | '\n' :: _ => 1
  | _ :: r => 1 + lineWidth r

def eolWidth : List Char → Nat
  | '\n' :: _ => 1
  | '\r' :: '\n' :: _ => 2
  | _ => 0

/-- The width of what opens a heredoc after its sign, with the mode it leads to. -/
def heredocOpening? (cs : List Char) : Option (Nat × Mode) :=
  let gap := (cs.takeWhile fun c => c == ' ' || c == '\t').length
  let (quote, labelled) :=
    match cs.drop gap with
    | '\'' :: r => (some '\'', r)
    | '"' :: r => (some '"', r)
    | r => (none, r)
  if startsName labelled then
    let label := labelled.takeWhile isNamePart
    let afterLabel := labelled.drop label.length
    let closed :=
      match quote with
      | some q => afterLabel.head? == some q
      | none => true
    let quoteWidth := if quote.isSome then 1 else 0
    let eol := eolWidth (afterLabel.drop quoteWidth)
    if closed && eol != 0 then
      let mode := if quote == some '\'' then Mode.nowdoc label else .heredoc label true
      some (gap + 2 * quoteWidth + label.length + eol, mode)
    else none
  else none

/-- The signs of more than one character, longer ones first. -/
def longSymbols : List String :=
  ["**=", "...", "<=>", "===", "!==", "<<=", ">>=", "??=", "?->",
    "->", "=>", "::", "++", "--", "+=", "-=", "*=", "/=", ".=", "%=", "&=", "|=", "^=", "&&", "||",
    "??", "<<", ">>", "<=", ">=", "==", "!=", "<>", "**", "#["]

/-- The signs of one character. -/
def shortSymbols : List Char :=
  ['+', '-', '*', '/', '%', '.', ',', ';', ':', '?', '!', '~', '&', '|', '^', '<', '>', '=', '(',
    ')', '[', ']', '{', '}', '@', '$', '\\']

def symbolWidth? (cs : List Char) : Option Nat :=
  match longSymbols.find? fun s => s.toList.isPrefixOf cs with
  | some s => some s.length
  | none =>
    match cs with
    | c :: _ => if c ∈ shortSymbols then some 1 else none
    | [] => none

/-- What a lexeme is, its number of characters, and the modes after it. -/
structure Step where
  kind : Kind
  width : Nat
  modes : List Mode

def htmlStep (outer : List Mode) (cs : List Char) : Step :=
  match cs with
  | '<' :: '?' :: '=' :: _ => ⟨.openEcho, 3, .code :: outer⟩
  | '<' :: '?' :: r =>
    if (r.take 3).map Char.toLower == ['p', 'h', 'p'] then ⟨.openTag, 5, .code :: outer⟩
    else ⟨.openTag, 2, .code :: outer⟩
  | _ => ⟨.html, htmlWidth cs, .html :: outer⟩

/-- The modes after a sign of one character, which may open or close a brace. -/
def afterSymbol (mode : Mode) (outer : List Mode) (c : Char) : List Mode :=
  match mode with
  | .embedded depth => if c == '{' then .embedded (depth + 1) :: outer
    else if c == '}' then .embedded (depth - 1) :: outer
    else mode :: outer
  | _ => mode :: outer

/-- The next lexeme in code, where a text may have a binary prefix of `skip` characters. -/
def textStep? (mode : Mode) (outer : List Mode) (skip : Nat) (cs : List Char) : Option Step :=
  match cs with
  | '\'' :: r => (singleQuotedWidth? r).map fun w => ⟨.string, skip + 1 + w, mode :: outer⟩
  | '"' :: _ => some ⟨.templateOpen, skip + 1, .quoted '"' :: mode :: outer⟩
  | '<' :: '<' :: '<' :: r =>
    (heredocOpening? r).map fun (w, inner) => ⟨.templateOpen, skip + 3 + w, inner :: mode :: outer⟩
  | _ => none

def codeStep? (mode : Mode) (outer : List Mode) (cs : List Char) : Option Step :=
  match cs with
  | [] => none
  | '?' :: '>' :: _ => if mode = .code then some ⟨.closeTag, 2, .html :: outer⟩ else none
  | '}' :: _ =>
    if mode = .embedded 0 then some ⟨.embedClose, 1, outer⟩
    else some ⟨.symbol, 1, afterSymbol mode outer '}'⟩
  | '#' :: '[' :: _ => some ⟨.symbol, 2, mode :: outer⟩
  | '#' :: r => some ⟨.comment, 1 + lineCommentWidth r, mode :: outer⟩
  | '/' :: '/' :: r => some ⟨.comment, 2 + lineCommentWidth r, mode :: outer⟩
  | '/' :: '*' :: r => (blockCommentWidth? r).map fun w => ⟨.comment, 2 + w, mode :: outer⟩
  | '\x60' :: _ => some ⟨.templateOpen, 1, .quoted '\x60' :: mode :: outer⟩
  | c :: r =>
    if isSpace c then some ⟨.blank, 1 + (r.takeWhile isSpace).length, mode :: outer⟩
    else
      match textStep? mode outer 0 cs with
      | some step => some step
      | none =>
        if c == '\'' then none
        else if c == '$' && startsName r then
          some ⟨.variable, 1 + nameWidth r, mode :: outer⟩
        else if isNameStart c then
          match (if c == 'b' || c == 'B' then textStep? mode outer 1 r else none) with
          | some step => some step
          | none => some ⟨.name, qualifiedWidth cs, mode :: outer⟩
        else if c == '\\' && startsName r then
          some ⟨.name, furtherWidth cs.length cs, mode :: outer⟩
        else if c.isDigit || (c == '.' && (r.head?.map Char.isDigit).getD false) then
          some ⟨.number, numberWidth cs, mode :: outer⟩
        else
          (symbolWidth? cs).map fun w =>
            ⟨.symbol, w, if w = 1 then afterSymbol mode outer c else mode :: outer⟩

/-- Embedded code or a variable in a text. -/
def embeddedStep? (mode : Mode) (outer : List Mode) (cs : List Char) : Option Step :=
  match cs with
  | '{' :: '$' :: _ => some ⟨.embedOpen, 1, .embedded 0 :: mode :: outer⟩
  | '$' :: '{' :: _ => some ⟨.embedOpen, 2, .embedded 0 :: mode :: outer⟩
  | '$' :: r => if startsName r then some ⟨.variable, 1 + nameWidth r, mode :: outer⟩ else none
  | _ => none

def quotedStep (quote : Char) (outer : List Mode) (cs : List Char) : Step :=
  if cs.head? = some quote then ⟨.templateClose, 1, outer⟩
  else
    match embeddedStep? (.quoted quote) outer cs with
    | some step => step
    | none => ⟨.templateText, quotedTextWidth quote cs, .quoted quote :: outer⟩

def heredocStep (label : List Char) (lineStart : Bool) (outer : List Mode) (cs : List Char) : Step :=
  match (if lineStart then closingLabelWidth? label cs else none) with
  | some w => ⟨.templateClose, w, outer⟩
  | none =>
    match embeddedStep? (.heredoc label false) outer cs with
    | some step => step
    | none =>
      let w := heredocTextWidth cs
      ⟨.templateText, w, .heredoc label ((cs.take w).getLast? == some '\n') :: outer⟩

def nowdocStep (label : List Char) (outer : List Mode) (cs : List Char) : Step :=
  match closingLabelWidth? label cs with
  | some w => ⟨.templateClose, w, outer⟩
  | none => ⟨.templateText, lineWidth cs, .nowdoc label :: outer⟩

def step? (modes : List Mode) (cs : List Char) : Option Step :=
  match modes with
  | [] => none
  | .html :: outer => some (htmlStep outer cs)
  | .quoted quote :: outer => some (quotedStep quote outer cs)
  | .heredoc label lineStart :: outer => some (heredocStep label lineStart outer cs)
  | .nowdoc label :: outer => some (nowdocStep label outer cs)
  | mode :: outer => codeStep? mode outer cs

/-- A file may end outside the tags and in code, but not inside a text. -/
def mayEnd : List Mode → Bool
  | [.html] => true
  | [.code] => true
  | _ => false

/-- The lexemes of a text as far as it could be cut, and whether it could be cut to its end. -/
structure Cut where
  lexemes : List Lexeme
  complete : Bool

/-- Cuts a text into lexemes, as far as it goes. -/
def cut : Nat → List Mode → List Char → Cut
  | _, modes, [] => ⟨[], mayEnd modes⟩
  | 0, _, _ :: _ => ⟨[], false⟩
  | fuel + 1, modes, c :: r =>
    match step? modes (c :: r) with
    | none => ⟨[], false⟩
    | some step =>
      if step.width = 0 then ⟨[], false⟩
      else
        let rest := cut fuel step.modes ((c :: r).drop step.width)
        ⟨⟨step.kind, (c :: r).take step.width⟩ :: rest.lexemes, rest.complete⟩

def lexemes (text : List Char) : Cut :=
  cut text.length [.html] text

end DocWiring.Php
