import DocWiring.Json.Reader

/-! # YAML scalars

Texts with and without quotes.  A scalar may go over several lines: one end of line between its
words stands for a space, and of more than one the first is dropped.
-/

namespace DocWiring.Yaml

/-- A space or a tab. -/
def isBlank (c : Char) : Bool :=
  c == ' ' || c == '\t'

/-- Nothing, white space or an end of line is next. -/
def endsWord : List Char → Bool
  | [] => true
  | c :: _ => isBlank c || c == '\n'

/-- A sign of a list or a map in brackets. -/
def isFlowSign (c : Char) : Bool :=
  c == ',' || c == '[' || c == ']' || c == '{' || c == '}'

/-- The white space between two words, of which `breaks` are ends of line. -/
def fold (blanks : List Char) (breaks : Nat) : List Char :=
  match breaks with
  | 0 => blanks
  | 1 => [' ']
  | n + 2 => List.replicate (n + 1) '\n'

/-- A run of white space: the blanks before the first end of line, the number of ends of line, and
what follows. -/
def gap (cs : List Char) : List Char × Nat × List Char :=
  let run := cs.takeWhile fun c => isBlank c || c == '\n'
  (run.takeWhile isBlank, run.count '\n', cs.dropWhile fun c => isBlank c || c == '\n')

/-- A text after its opening single quote, and what follows its closing quote.  A quote inside is
written twice. -/
def singleQuoted? : Nat → List Char → Option (List Char × List Char)
  | 0, _ => none
  | _ + 1, [] => none
  | fuel + 1, '\'' :: '\'' :: r => do
    let (text, rest) ← singleQuoted? fuel r
    return ('\'' :: text, rest)
  | _ + 1, '\'' :: r => some ([], r)
  | fuel + 1, c :: r =>
    if isBlank c || c == '\n' then
      let (blanks, breaks, after) := gap (c :: r)
      (singleQuoted? fuel after).map fun p => (fold blanks breaks ++ p.1, p.2)
    else (singleQuoted? fuel r).map fun p => (c :: p.1, p.2)

/-- The character that a letter after a backslash stands for. -/
def escaped? (c : Char) : Option Char :=
  match c with
  | '0' => some '\x00'
  | 'a' => some '\x07'
  | 'b' => some '\x08'
  | 't' => some '\t'
  | '\t' => some '\t'
  | 'n' => some '\n'
  | 'v' => some '\x0b'
  | 'f' => some '\x0c'
  | 'r' => some '\r'
  | 'e' => some '\x1b'
  | ' ' => some ' '
  | '"' => some '"'
  | '/' => some '/'
  | '\\' => some '\\'
  | 'N' => some '\u0085'
  | '_' => some '\u00a0'
  | 'L' => some '\u2028'
  | 'P' => some '\u2029'
  | _ => none

/-- The number of hexadecimal digits after a letter for a code point. -/
def hexWidth? (c : Char) : Option Nat :=
  match c with
  | 'x' => some 2
  | 'u' => some 4
  | 'U' => some 8
  | _ => none

/-- The character with a code point written in hexadecimal. -/
def charOfHex? (digits : List Char) : Option Char := do
  let n ← digits.foldlM (fun n d => do return n * 16 + (← Json.hexValue? d)) 0
  if n.isValidChar then some (Char.ofNat n) else none

/-- A text after its opening double quote, and what follows its closing quote. -/
def doubleQuoted? : Nat → List Char → Option (List Char × List Char)
  | 0, _ => none
  | _ + 1, [] => none
  | _ + 1, '"' :: r => some ([], r)
  | fuel + 1, '\\' :: '\n' :: r => doubleQuoted? fuel (r.dropWhile isBlank)
  | fuel + 1, '\\' :: c :: r =>
    match hexWidth? c with
    | some n => do
      if r.length < n then none
      let d ← charOfHex? (r.take n)
      let (text, rest) ← doubleQuoted? fuel (r.drop n)
      return (d :: text, rest)
    | none => do
      let d ← escaped? c
      let (text, rest) ← doubleQuoted? fuel r
      return (d :: text, rest)
  | fuel + 1, c :: r =>
    if isBlank c || c == '\n' then
      let (blanks, breaks, after) := gap (c :: r)
      (doubleQuoted? fuel after).map fun p => (fold blanks breaks ++ p.1, p.2)
    else (doubleQuoted? fuel r).map fun p => (c :: p.1, p.2)

/-- A word of an unquoted scalar, and what follows it.  It goes up to white space, to a colon that
ends a key, or inside brackets to one of their signs. -/
def plainWord? (flow : Bool) : List Char → Option (List Char × List Char)
  | [] => some ([], [])
  | c :: r =>
    if isBlank c || c == '\n' then some ([], c :: r)
    else if c == ':' && endsWord r then some ([], c :: r)
    else if flow && isFlowSign c then some ([], c :: r)
    else if flow && c == ':' && r.head?.any fun d => isFlowSign d || d == '?' then none
    else (plainWord? flow r).map fun p => (c :: p.1, p.2)

/-- The column of what follows a run of white space with an end of line in it. -/
def columnAfter (run : List Char) : Nat :=
  (run.reverse.takeWhile (· != '\n')).length

/-- The words of an unquoted scalar, and what follows the last one.  Outside brackets a word on a
further line has to stand at column `least` or beyond. -/
def plainWords? (flow : Bool) (least : Nat) : Nat → List Char → Option (List Char × List Char)
  | 0, _ => none
  | fuel + 1, cs => do
    let (word, after) ← plainWord? flow cs
    let run := after.takeWhile fun c => isBlank c || c == '\n'
    let next := after.drop run.length
    let (blanks, breaks, _) := gap after
    if run.isEmpty || next.isEmpty || next.head? == some '#' then return (word, after)
    else if breaks > 0 && !flow && columnAfter run < least then return (word, after)
    else
      match ← plainWords? flow least fuel next with
      | ([], _) => return (word, after)
      | (text, rest) => return (word ++ fold blanks breaks ++ text, rest)

/-- An unquoted scalar may start here. -/
def startsPlain (flow : Bool) : List Char → Bool
  | [] => false
  | c :: r =>
    if c == '-' then !endsWord r
    else if c == '?' || c == ':' then !flow && !endsWord r
    else !(isBlank c || c == '\n' || isFlowSign c || "#&*!|>'\"%@\x60".toList.contains c)

end DocWiring.Yaml
