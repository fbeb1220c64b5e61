import DocWiring.Diff.Compact
import DocWiring.Diff.Shortest

/-! # Unified diffs

The changed lines of a text with the lines around them, in hunks.  Changes that only a few equal
lines separate share a hunk.
-/

namespace DocWiring.Diff

/-- The lines of a text, each with its end of line: a line feed, a carriage return, or both. -/
def linesOf : List Char → List (List Char)
  | [] => []
  | '\r' :: '\n' :: r => ['\r', '\n'] :: linesOf r
  | c :: r =>
    if c == '\n' || c == '\r' then [c] :: linesOf r
    else
      match linesOf r with
      | [] => [[c]]
      | l :: ls => (c :: l) :: ls

/-- A part of a diff: equal lines, or lines that are replaced by others. -/
inductive Part where
  | same (lines : List (List Char))
  | change (old new : List (List Char))

namespace Part

def oldCount : Part → Nat
  | .same lines => lines.length
  | .change old _ => old.length

def newCount : Part → Nat
  | .same lines => lines.length
  | .change _ new => new.length

end Part

/-- The parts of a script.  Runs that touch make one part. -/
def partsOf : List (Run (List Char)) → List Part
  | [] => []
  | .keep xs :: rest =>
    match partsOf rest with
    | .same ys :: parts => .same (xs ++ ys) :: parts
    | parts => .same xs :: parts
  | .drop xs :: rest =>
    match partsOf rest with
    | .change old new :: parts => .change (xs ++ old) new :: parts
    | parts => .change xs [] :: parts
  | .add xs :: rest =>
    match partsOf rest with
    | .change old new :: parts => .change old (xs ++ new) :: parts
    | parts => .change [] xs :: parts

/-- The number of equal lines around a change. -/
def context : Nat := 3

/-- Parts that are shown together, and the numbers of old and new lines before them. -/
structure Hunk where
  oldStart : Nat
  newStart : Nat
  parts : List Part

/-- The last lines of a list that are shown before a change. -/
def leading (lines : List (List Char)) : List (List Char) :=
  lines.drop (lines.length - context)

/-- Adds parts to the current hunk, which is given with its last part first, up to equal lines that
separate it from the next one.  `old` and `new` are the numbers of lines passed. -/
def hunksFrom (old new : Nat) (current : Hunk) : List Part → List Hunk
  | [] => [current]
  | .same lines :: rest =>
    let old := old + lines.length
    let new := new + lines.length
    match rest with
    | [] => [{ current with parts := .same (lines.take context) :: current.parts }]
    | _ =>
      if lines.length > 2 * context then
        { current with parts := .same (lines.take context) :: current.parts } ::
          hunksFrom old new ⟨old - context, new - context, [.same (leading lines)]⟩ rest
      else hunksFrom old new { current with parts := .same lines :: current.parts } rest
  | .change dropped added :: rest =>
    hunksFrom (old + dropped.length) (new + added.length)
      { current with parts := .change dropped added :: current.parts } rest

/-- The hunks of parts; there are none when nothing changes. -/
def hunksOf : List Part → List Hunk
  | [] => []
  | [.same _] => []
  | .same lines :: rest =>
    let shown := leading lines
    let skipped := lines.length - shown.length
    hunksFrom lines.length lines.length ⟨skipped, skipped, [.same shown]⟩ rest
  | parts => hunksFrom 0 0 ⟨0, 0, []⟩ parts

/-- The lines that a hunk covers in one of the texts: a number alone for one line, and the line
before for none. -/
def rangeText (start count : Nat) : String :=
  if count = 1 then toString (start + 1)
  else if count = 0 then toString start ++ ",0"
  else toString (start + 1) ++ "," ++ toString count

/-- A line with its sign, and a remark if it is not terminated. -/
def signedLine (sign : Char) (line : List Char) : List Char :=
  let ended := line.getLast?.any fun c => c == '\n' || c == '\r'
  sign :: line ++ if ended then [] else "\n\\ No newline at end of file\n".toList

def Part.text : Part → List Char
  | .same lines => lines.flatMap (signedLine ' ')
  | .change old new => old.flatMap (signedLine '-') ++ new.flatMap (signedLine '+')

def Hunk.text (h : Hunk) : List Char :=
  let parts := h.parts.reverse
  let oldCount := parts.foldl (fun n p => n + p.oldCount) 0
  let newCount := parts.foldl (fun n p => n + p.newCount) 0
  ("@@ -" ++ rangeText h.oldStart oldCount ++ " +" ++ rangeText h.newStart newCount ++
    " @@\n").toList ++ parts.flatMap Part.text

/-- The diff of two texts under a name, empty when they are equal. -/
def unified (name : String) (old new : List Char) : List Char :=
  let hunks := hunksOf (partsOf (compact (shortest (linesOf old) (linesOf new))))
  if hunks.isEmpty then []
  else ("--- " ++ name ++ "\n+++ " ++ name ++ "\n").toList ++ hunks.flatMap Hunk.text

end DocWiring.Diff
