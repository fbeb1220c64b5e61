import DocWiring.Error
import DocWiring.Source.Encoding
import DocWiring.Source.Line

/-! # Source units

A source unit is a file as a list of lines, together with the encoding it was read in.
-/

namespace DocWiring

/-- The lines of a file and its encoding. -/
structure SourceUnit where
  lines : List Line
  encoding : Encoding
deriving DecidableEq, Repr

namespace SourceUnit

def ofLines (lines : List Line) : SourceUnit :=
  ⟨lines, .utf8⟩

def ofText (text : List Char) : SourceUnit :=
  ⟨Line.ofText text, .utf8⟩

/-- Reads a file from its bytes. -/
def ofBytes (bytes : ByteArray) : SourceUnit :=
  let (encoding, text) := Encoding.decode bytes
  ⟨Line.ofText text, encoding⟩

def text (u : SourceUnit) : List Char :=
  u.lines.flatten

/-- The bytes of the unit in its own encoding. -/
def toBytes (u : SourceUnit) : Except Error ByteArray :=
  match u.encoding.encode u.text with
  | .ok bytes => .ok bytes
  | .error c => .error (.io (.unencodable c))

/-- The line of a number counted from one. -/
def line? (u : SourceUnit) : Nat → Option Line
  | 0 => none
  | n + 1 => u.lines[n]?

def firstEol? (u : SourceUnit) : Option (List Char) :=
  (u.lines.map Line.eol).find? fun e => !e.isEmpty

theorem text_ofText (t : List Char) : (ofText t).text = t :=
  Line.flatten_ofText t

end SourceUnit

/-- Takes a comment apart into terminated lines, of which there have to be two or more.  A last
line without an end of line is given the first line's. -/
def Line.ofComment (text : List Char) (line : Nat) : Except Error (List Line) :=
  match Line.ofText text with
  | [] => .error (.format line .noLines)
  | [_] => .error (.format line .oneLine)
  | first :: rest =>
    match rest.getLast? with
    | some last =>
      if last.eol.isEmpty then .ok (first :: rest.dropLast ++ [last ++ first.eol])
      else .ok (first :: rest)
    | none => .ok (first :: rest)

end DocWiring
