import DocWiring.Php.Reading
import DocWiring.Php.Sound
import DocWiring.Php.Statement

/-! # A parser of PHP

Parses the tokens of a file to nodes, and puts white space, comments and opening tags back to where they
stand between them.  What comes before a token goes into the largest node that begins after it.
-/

namespace DocWiring.Php

/-- Reads all the tokens that are left as statements. -/
def statements (g : Grammar) : Parser Unit :=
  many do
    match ← peek? with
    | none => return false
    | some _ =>
      g.statement
      return true

/-- The statements that the tokens of a file are, or the number of tokens before the one where it cannot
be read on. -/
def program (tokens : List Lexeme) : Except Nat (List Node) :=
  let g := grammar (2 * tokens.length + 2)
  match (statements g).run (.ofTokens tokens) with
  | .ok (_, s) => .ok s.built.reverse
  | .error taken => .error taken

namespace Node

mutual

/-- Puts what has been passed over back between the parts of a node that begins with the first lexeme.
Answers with the lexemes after the node too. -/
def dress : Node → List Lexeme → Node × List Lexeme
  | gap text, ls => (gap text, ls)
  | leaf label text, ls => (leaf label text, ls.tail)
  | branch label parts, ls =>
    let (parts', rest) := dressAll parts ls
    (branch label parts', rest)

def dressAll : List Node → List Lexeme → List Node × List Lexeme
  | [], ls => ([], ls)
  | n :: ns, ls =>
    let (n', rest) := n.dress (ls.dropWhile Lexeme.isPassed)
    let (ns', rest') := dressAll ns rest
    ((ls.takeWhile Lexeme.isPassed).map Lexeme.piece ++ n' :: ns', rest')

end

/-- White space, a comment or an opening tag. -/
def isPassed : Node → Bool
  | gap _ => true
  | leaf label _ => label.kind == "comment" || label.kind == "php_tag"
  | branch _ _ => false

mutual

/-- Nothing that has been passed over is in a node. -/
def isBare : Node → Bool
  | branch _ parts => allBare parts
  | n => !n.isPassed

def allBare : List Node → Bool
  | [] => true
  | n :: ns => n.isBare && allBare ns

end

mutual

/-- Every node in the node begins and ends with a token. -/
def isTight : Node → Bool
  | branch _ parts =>
    parts.head?.any (!·.isPassed) && parts.getLast?.any (!·.isPassed) && allTight parts
  | _ => true

def allTight : List Node → Bool
  | [] => true
  | n :: ns => n.isTight && allTight ns

end

mutual

/-- The leaves and gaps of a node, in their order. -/
def fringe : Node → List Node
  | branch _ parts => fringeAll parts
  | n => [n]

def fringeAll : List Node → List Node
  | [] => []
  | n :: ns => n.fringe ++ fringeAll ns

end

end Node

/-- A leaf or gap is what a lexeme is in a tree.  Of a token only the text is compared. -/
def Lexeme.makes (l : Lexeme) : Node → Bool
  | .gap text => l.kind == .blank && l.text == text
  | .leaf label text =>
    l.text == text && l.kind != .blank &&
      if l.isPassed then label == l.label else label.kind != "comment" && label.kind != "php_tag"
  | .branch _ _ => false

/-- These leaves and gaps are what the lexemes are. -/
def makeAll : List Lexeme → List Node → Bool
  | [], [] => true
  | l :: ls, n :: ns => l.makes n && makeAll ls ns
  | _, _ => false

/-- The tree of a whole file. -/
def fileNode (parts : List Node) : Node :=
  .branch { kind := "program", named := true } parts

/-- A file that cannot be read on after some text. -/
def faultyFile (before after : List Char) : Node :=
  fileNode [.gap before, .leaf { kind := "ERROR", named := true } after]

/-- The number of lexemes before the token with index `i`. -/
def indexOfToken : Nat → List Lexeme → Nat
  | _, [] => 0
  | i, l :: ls =>
    if l.isPassed then indexOfToken i ls + 1
    else
      match i with
      | 0 => 0
      | i + 1 => indexOfToken i ls + 1

/-- The text of some lexemes. -/
def textOf (ls : List Lexeme) : List Char :=
  (ls.map (·.text)).flatten

/-- The tree of the lexemes of a file.  It is one that follows the grammar and has all of the lexemes in
it. -/
def treeOf (ls : List Lexeme) : Node :=
  match program (ls.filter (!·.isPassed)) with
  | .error taken =>
    let i := indexOfToken taken ls
    faultyFile (textOf (ls.take i)) (textOf (ls.drop i))
  | .ok statements =>
    let (parts, rest) := Node.dressAll statements ls
    let root := fileNode (parts ++ rest.map Lexeme.piece)
    if rest.all Lexeme.isPassed && Node.allBare statements && Node.allTight root.parts &&
        makeAll ls root.fringe && decide root.Regular then root
    else faultyFile [] (textOf ls)

/-- The tree of a text. -/
def parseText (text : List Char) : Node :=
  let cut := lexemes text
  if cut.complete then treeOf cut.lexemes
  else
    let before := textOf cut.lexemes
    faultyFile before (text.drop before.length)

def parser : SyntaxParser where
  refusal? := none
  parse text := some (parseText text)

def classes (path : Path) (source : SourceUnit) : Except Error (List ClassNode) :=
  parser.classes path source

end DocWiring.Php
