import DocWiring.ClassModel
import DocWiring.DocBlock.Annotation
import DocWiring.Patch
import DocWiring.Text.Search

/-! # Doc blocks

A doc block is the doc comment of a class as whole lines, the opening line first and the closing
line last.  A class without a comment is given an empty block of two lines; a comment on one line
is taken apart into an opening and a closing line.  Only annotation lines are ever added or
taken away.
-/

namespace DocWiring

/-- The lines of a doc comment, and the lines of the file that they stand for. -/
structure DocBlock where
  lines : List Line
  replaced : List Line
  start : Nat
  indent : List Char
  eol : List Char
deriving DecidableEq, Repr

namespace DocBlock

def opening : List Char := ['/', '*', '*']

def closing : List Char := ['*', '/']

/-- The end of line of a line, or else the first one in the file, or else a line feed. -/
def eolNear (u : SourceUnit) (line : Line) : List Char :=
  if line.eol.isEmpty then u.firstEol?.getD ['\n'] else line.eol

/-- The closing line of a block, up to its end of line. -/
def closingLine (indent : List Char) : List Char :=
  indent ++ ' ' :: closing

/-- The empty block of a class without a doc comment. -/
def blank (u : SourceUnit) (classLine : Nat) : Except Error DocBlock :=
  match u.line? classLine with
  | none => .error (.format classLine .classOutside)
  | some line =>
    let indent := line.indent
    let eol := eolNear u line
    .ok
      { lines := [indent ++ opening ++ eol, closingLine indent ++ eol]
        replaced := []
        start := classLine - 1
        indent := indent
        eol := eol }

/-- The two lines of a comment that opens and closes on `first`, where `head` is the content before
the closing sign and `tail` is all that follows the sign. -/
def unfoldedLines (indent eol head tail : List Char) : List Line :=
  [head ++ eol, closingLine indent ++ tail ++ (if (Line.eol tail).isEmpty then eol else [])]

def ofComment (u : SourceUnit) (comment : DocComment) : Except Error DocBlock :=
  let outside : Error := .format comment.startLine .commentOutside
  if comment.endLine < comment.startLine then .error outside
  else
    match u.line? comment.startLine, u.line? comment.endLine with
    | some first, some last =>
      let indent := first.indent
      if !opening.isPrefixOf (first.content.drop indent.length) then
        .error (.format comment.startLine .startsInsideLine)
      else
        match Text.cutLast? closing last.content with
        | none => .error (.format comment.endLine .notClosed)
        | some (head, tail) =>
          if !Text.isBlankText tail then
            .error (.format comment.endLine .codeFollows)
          else
            let start := comment.startLine - 1
            let replaced := (u.lines.drop start).take (comment.endLine - start)
            let block (lines : List Line) : DocBlock :=
              { lines := lines
                replaced := replaced
                start := start
                indent := indent
                eol := (lines.headD []).eol }
            if comment.isSingleLine then
              if head.length < indent.length + opening.length then
                .error (.format comment.startLine .emptyComment)
              else
                .ok (block (unfoldedLines indent (eolNear u first) head (tail ++ last.eol)))
            else
              (Line.ofComment replaced.flatten comment.startLine).map block
    | _, _ => .error outside

def locate (u : SourceUnit) (cls : ClassNode) : Except Error DocBlock :=
  match cls.docComment with
  | some comment => ofComment u comment
  | none => blank u cls.startLine

def text (b : DocBlock) : List Char :=
  b.lines.flatten

def annotations (b : DocBlock) : List (List Char × List Char) :=
  b.lines.flatMap fun line => Annotation.findAll line.content

def contains (b : DocBlock) (a : Annotation) : Bool :=
  b.annotations.any a.agrees

/-- Adds a line for the annotation before the closing line, unless the block has it. -/
def insert (b : DocBlock) (a : Annotation) : DocBlock :=
  if b.contains a then b
  else { b with lines := b.lines.dropLast ++ a.line b.indent b.eol :: b.lines.getLast?.toList }

/-- Holds the tag of an annotation, spelled in lower case. -/
def isTagged (line : Line) : Bool :=
  Text.holds Annotation.tag line.content

/-- The opening line without what stands from the tag on. -/
def clearedOpening (line : Line) : Line :=
  match Text.cutFirst? Annotation.tag line.content with
  | some (before, _) => Text.trimEnd before ++ line.eol
  | none => line

/-- A closing line that says nothing else. -/
def clearedClosing (b : DocBlock) (line : Line) : Line :=
  closingLine b.indent ++ (if line.eol.isEmpty then b.eol else line.eol)

/-- Lines of a block without their annotations, the first of which has the index `i`, and the number of
lines that held one.  Lines between the first and the last go altogether, the first is cut off before
the tag and the last is replaced by a bare closing line. -/
def clearLines (b : DocBlock) (last : Nat) : Nat → List Line → List Line × Nat
  | _, [] => ([], 0)
  | i, line :: rest =>
    let (kept, touched) := b.clearLines last (i + 1) rest
    if isTagged line then
      if i = 0 then (clearedOpening line :: kept, touched + 1)
      else if i = last then (b.clearedClosing line :: kept, touched + 1)
      else (kept, touched + 1)
    else (line :: kept, touched)

/-- The block without its annotations, and the number of lines that have changed. -/
def removeAnnotations (b : DocBlock) : DocBlock × Nat :=
  let (kept, touched) := b.clearLines (b.lines.length - 1) 0 b.lines
  ({ b with lines := kept }, touched)

def clear (b : DocBlock) : DocBlock :=
  b.removeAnnotations.1

def taggedCount (b : DocBlock) : Nat :=
  b.removeAnnotations.2

/-- The patch that puts the block into the file, unless the file has these lines already. -/
def toPatch? (b : DocBlock) : Option Patch :=
  if b.lines = b.replaced then none
  else some { start := b.start, count := b.replaced.length, replacement := b.lines }

end DocBlock

end DocWiring
