import DocWiring.Text.Blank
import DocWiring.Text.Word

/-! # Property annotations in a line

An annotation is written as a star, the tag, a type and a symbol with a dollar before it, with
white space between them; the tag may have letters of either case.  In one line annotations are
found from left to right and do not overlap.
-/

namespace DocWiring

/-- The type and the symbol of a property. -/
structure Annotation where
  typeName : String
  symbol : String
deriving DecidableEq, Repr

namespace Annotation

def tag : List Char := ['@', 'p', 'r', 'o', 'p', 'e', 'r', 't', 'y']

/-- A letter of ASCII in lower case, and any other character as it is. -/
def lowerChar (c : Char) : Char :=
  c.toLower

/-- The two texts differ at most in the case of ASCII letters. -/
def sameLetters (a b : List Char) : Bool :=
  a.map lowerChar == b.map lowerChar

/-- What follows the tag, in letters of either case. -/
def afterTag? (t : List Char) : Option (List Char) :=
  if sameLetters (t.take tag.length) tag then some (t.drop tag.length) else none

/-- What follows white space, of which there has to be some. -/
def afterBlank? (t : List Char) : Option (List Char) :=
  match t with
  | c :: _ => if Text.isBlank c then some (t.dropWhile Text.isBlank) else none
  | [] => none

/-- The type and the symbol of the annotation that starts with the first character, and what
follows it. -/
def readAt? (t : List Char) : Option ((List Char × List Char) × List Char) :=
  match t with
  | '*' :: afterStar => do
    let afterTag ← afterTag? (afterStar.dropWhile Text.isBlank)
    let atType ← afterBlank? afterTag
    let typeName := atType.takeWhile fun c => !Text.isBlank c
    let atSymbol ← afterBlank? (atType.dropWhile fun c => !Text.isBlank c)
    match atSymbol with
    | '$' :: name =>
      let symbol := name.takeWhile Text.isWord
      if typeName.isEmpty || symbol.isEmpty then none
      else some ((typeName, symbol), name.dropWhile Text.isWord)
    | _ => none
  | _ => none

/-- The annotations of a text, of which the first `skip` characters are already used. -/
def scan : Nat → List Char → List (List Char × List Char)
  | _, [] => []
  | skip + 1, _ :: r => scan skip r
  | 0, c :: r =>
    match readAt? (c :: r) with
    | some (found, rest) => found :: scan (r.length - rest.length) r
    | none => scan 0 r

/-- The types and symbols of the annotations of a text. -/
def findAll (t : List Char) : List (List Char × List Char) :=
  scan 0 t

/-- The annotation has this type and this symbol, in letters of either case. -/
def agrees (a : Annotation) (found : List Char × List Char) : Bool :=
  sameLetters found.1 a.typeName.toList && sameLetters found.2 a.symbol.toList

/-- The line that writes the annotation in a block. -/
def line (a : Annotation) (indent eol : List Char) : List Char :=
  indent ++ [' ', '*', ' '] ++ tag ++ ' ' :: a.typeName.toList ++ ' ' :: '$' :: a.symbol.toList ++ eol

end Annotation

end DocWiring
