import DocWiring.Text.Blank

/-! # Lines

A line keeps its own end of line: a line feed, a carriage return with a line feed, or nothing for
a last line that is not terminated.  A lone carriage return does not end a line.
-/

namespace DocWiring

/-- One line of a file, its end of line included. -/
abbrev Line := List Char

namespace Line

/-- The content of a line and its end of line. -/
def splitEol : Line → List Char × List Char
  | [] => ([], [])
  | ['\n'] => ([], ['\n'])
  | ['\r', '\n'] => ([], ['\r', '\n'])
  | c :: r => (c :: (splitEol r).1, (splitEol r).2)

/-- The line without its end of line. -/
def content (l : Line) : List Char :=
  (splitEol l).1

/-- The end of line, empty when the line is not terminated. -/
def eol (l : Line) : List Char :=
  (splitEol l).2

/-- A space or a tab. -/
def isIndent (c : Char) : Bool :=
  c == ' ' || c == '\t'

/-- The spaces and tabs at the start of the content. -/
def indent (l : Line) : List Char :=
  l.content.takeWhile isIndent

/-- The lines of a text, each with its end of line. -/
def ofText : List Char → List Line
  | [] => []
  | c :: r =>
    if c = '\n' then ['\n'] :: ofText r
    else
      match ofText r with
      | [] => [[c]]
      | l :: ls => (c :: l) :: ls

theorem content_append_eol (l : Line) : l.content ++ l.eol = l := by
  unfold content eol
  fun_induction splitEol l with
  | case1 => rfl
  | case2 => rfl
  | case3 => rfl
  | case4 c r _ _ ih => simpa using ih

theorem flatten_ofText (t : List Char) : (ofText t).flatten = t := by
  induction t with
  | nil => rfl
  | cons c r ih =>
    unfold ofText
    split
    next h => simp [h, ih]
    next =>
      split
      next h =>
        rw [← ih, h]
        rfl
      next l ls h =>
        rw [← ih, h]
        rfl

end Line

end DocWiring
