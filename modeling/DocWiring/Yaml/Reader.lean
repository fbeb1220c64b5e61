import DocWiring.Text.Search
import DocWiring.Yaml.Node
import DocWiring.Yaml.Scalar

/-! # Reading YAML

Lists and maps are written by indentation, with a hyphen before an item and a colon after a key,
or in brackets and braces.  Anchors, directives, texts in block style and keys after a question mark are
not read.
-/

namespace DocWiring.Yaml

/-- What is left of a document, the column of it, and whether nothing but spaces stands before it
on its line. -/
structure Place where
  rest : List Char
  column : Nat
  fresh : Bool

namespace Place

/-- Goes on to a later part of the rest. -/
def goTo (p : Place) (rest : List Char) : Place :=
  let passed := p.rest.take (p.rest.length - rest.length)
  let column := if passed.contains '\n' then columnAfter passed else p.column + passed.length
  ⟨rest, column, false⟩

/-- Goes on over white space and comments.  A tab is no indentation: where a key may start it is
not passed over.  `comment` says that a comment has been entered. -/
def skip (flow : Bool) : List Char → Nat → (key fresh comment : Bool) → Place
  | [], column, _, fresh, _ => ⟨[], column, fresh⟩
  | c :: r, column, key, fresh, comment =>
    if c == '\n' then skip flow r 0 true true false
    else if comment || c == '#' then skip flow r (column + 1) key fresh true
    else if c == ' ' || (c == '\t' && (flow || !key)) then skip flow r (column + 1) key fresh false
    else ⟨c :: r, column, fresh⟩

/-- The next content.  `key` says that a key may start on this line. -/
def next (flow key : Bool) (p : Place) : Place :=
  skip flow p.rest p.column (key || p.fresh) p.fresh false

def atEnd (p : Place) : Bool :=
  p.rest.isEmpty

end Place

def startsItem : List Char → Bool
  | '-' :: r => endsWord r
  | _ => false

def startsValue : List Char → Bool
  | ':' :: r => endsWord r
  | _ => false

/-- A tag after its exclamation mark, and what follows it. -/
def tagText (cs : List Char) : String × List Char :=
  let text := cs.takeWhile fun c => !(isBlank c || c == '\n' || isFlowSign c)
  (String.ofList text, cs.drop text.length)

/-- A scalar with or without quotes, and the place after it. -/
def scalar? (flow : Bool) (least : Nat) (p : Place) : Option (Yaml × Place) :=
  match p.rest with
  | '\'' :: r => do
    let (text, rest) ← singleQuoted? (r.length + 1) r
    return (.scalar none false (String.ofList text), p.goTo rest)
  | '"' :: r => do
    let (text, rest) ← doubleQuoted? (r.length + 1) r
    return (.scalar none false (String.ofList text), p.goTo rest)
  | cs =>
    if startsPlain flow cs then do
      let (text, rest) ← plainWords? flow least (cs.length + 1) cs
      return (.scalar none true (String.ofList text), p.goTo rest)
    else none

mutual

/-- A node in brackets or braces, or a scalar inside them. -/
def flow? : Nat → Place → Option (Yaml × Place)
  | 0, _ => none
  | fuel + 1, p =>
    match p.rest with
    | '[' :: r => do
      let (items, q) ← flowItems? fuel ((p.goTo r).next true false)
      return (.list none items, q)
    | '{' :: r => do
      let (entries, q) ← flowEntries? fuel ((p.goTo r).next true false)
      return (.map none entries, q)
    | '!' :: r => do
      let (tag, rest) := tagText r
      let q := (p.goTo rest).next true false
      match q.rest with
      | ',' :: _ | ']' :: _ | '}' :: _ => return (absent.withTag tag, q)
      | _ =>
        let (node, q) ← flow? fuel q
        return (node.withTag tag, q)
    | _ => scalar? true 0 p

/-- The items of a list in brackets.  An item with a colon in it is a map of one entry. -/
def flowItems? : Nat → Place → Option (List Yaml × Place)
  | 0, _ => none
  | fuel + 1, p =>
    match p.rest with
    | ']' :: r => some ([], p.goTo r)
    | _ => do
      let (node, q) ← flow? fuel p
      let (item, q) ← flowPair? fuel node (q.next true false)
      match q.rest with
      | ',' :: r => do
        let (items, q) ← flowItems? fuel ((q.goTo r).next true false)
        return (item :: items, q)
      | ']' :: r => return ([item], q.goTo r)
      | _ => none

/-- An item of a list in brackets, once its first node has been read. -/
def flowPair? : Nat → Yaml → Place → Option (Yaml × Place)
  | 0, _, _ => none
  | fuel + 1, node, p =>
    match p.rest with
    | ':' :: _ => do
      let (value, q) ← flowValue? fuel p
      return (.map none [(node, value)], q)
    | _ => some (node, p)

/-- The value after a key in braces, which may be missing. -/
def flowValue? : Nat → Place → Option (Yaml × Place)
  | 0, _ => none
  | fuel + 1, p =>
    match p.rest with
    | ':' :: r =>
      let q := (p.goTo r).next true false
      match q.rest with
      | ',' :: _ | ']' :: _ | '}' :: _ => some (absent, q)
      | _ => do
        let (value, q) ← flow? fuel q
        return (value, q.next true false)
    | _ => some (absent, p)

def flowEntries? : Nat → Place → Option (List (Yaml × Yaml) × Place)
  | 0, _ => none
  | fuel + 1, p =>
    match p.rest with
    | '}' :: r => some ([], p.goTo r)
    | _ => do
      let (key, q) ← flow? fuel p
      let (value, q) ← flowValue? fuel (q.next true false)
      match q.rest with
      | ',' :: r => do
        let (entries, q) ← flowEntries? fuel ((q.goTo r).next true false)
        return ((key, value) :: entries, q)
      | '}' :: r => return ([(key, value)], q.goTo r)
      | _ => none

end

/-- A key with its colon on one line, and the place after the colon. -/
def key? (p : Place) : Option (Yaml × Place) := do
  let (key, q) ← scalar? false (p.column + 1) p
  if (p.rest.take (p.rest.length - q.rest.length)).contains '\n' then none
  match q.rest.dropWhile isBlank with
  | ':' :: r => if endsWord r then some (key, q.goTo r) else none
  | _ => none

/-- The content is on the line where it was expected, or further right than `least`. -/
def Place.isInside (p : Place) (least : Nat) : Bool :=
  !p.atEnd && (!p.fresh || least ≤ p.column)

mutual

/-- The node at a place.  `key` says that a list or a map may start on this line; a scalar that
goes over further lines has to stand at column `least` or beyond. -/
def node? : Nat → (least : Nat) → (key : Bool) → Place → Option (Yaml × Place)
  | 0, _, _, _ => none
  | fuel + 1, least, key, p =>
    if startsItem p.rest then
      if key then (items? fuel p.column p).map fun r => (.list none r.1, r.2) else none
    else
      match (if key then key? p else none) with
      | some _ => (entries? fuel p.column p).map fun r => (.map none r.1, r.2)
      | none =>
        match p.rest with
        | '!' :: r => do
          let (tag, rest) := tagText r
          let q := (p.goTo rest).next false false
          if q.isInside least then
            let (node, q) ← node? fuel least q.fresh q
            return (node.withTag tag, q)
          else return (absent.withTag tag, q)
        | '[' :: _ => flow? fuel p
        | '{' :: _ => flow? fuel p
        | _ => scalar? false least p

def items? : Nat → (column : Nat) → Place → Option (List Yaml × Place)
  | 0, _, _ => none
  | fuel + 1, column, p => do
    let q := (p.goTo (p.rest.drop 1)).next false true
    let (item, q) ←
      if q.isInside (column + 1) then node? fuel (column + 1) true q else some (absent, q)
    let q := q.next false false
    if q.atEnd then return ([item], q)
    else if !q.fresh then none
    else if q.column == column && startsItem q.rest then
      let (items, q) ← items? fuel column q
      return (item :: items, q)
    else if q.column ≤ column then return ([item], q)
    else none

/-- The value after the colon of a key that stands at a column.  A list may stand as far left as
the key. -/
def value? : Nat → (column : Nat) → Place → Option (Yaml × Place)
  | 0, _, _ => none
  | fuel + 1, column, p =>
    let q := p.next false false
    if q.atEnd then some (absent, q)
    else if q.fresh && q.column == column && startsItem q.rest then
      (items? fuel column q).map fun r => (.list none r.1, r.2)
    else if q.isInside (column + 1) then node? fuel (column + 1) q.fresh q
    else some (absent, q)

def entries? : Nat → (column : Nat) → Place → Option (List (Yaml × Yaml) × Place)
  | 0, _, _ => none
  | fuel + 1, column, p => do
    let (key, q) ← key? p
    let (value, q) ← value? fuel column q
    let q := q.next false false
    if q.atEnd then return ([(key, value)], q)
    else if !q.fresh then none
    else if q.column == column then
      if startsItem q.rest then none
      else
        let (entries, q) ← entries? fuel column q
        return ((key, value) :: entries, q)
    else if q.column < column then return ([(key, value)], q)
    else none

end

/-- The line is a mark of three equal characters, perhaps with more after white space. -/
def isMark (c : Char) (line : List Char) : Bool :=
  [c, c, c].isPrefixOf line && endsWord (line.drop 3)

/-- Nothing but white space and comments. -/
def isIdle (text : List Char) : Bool :=
  (Place.next false true ⟨text, 0, true⟩).atEnd

/-- The ends of line of a text, all written as a line feed. -/
def normalized : List Char → List Char
  | [] => []
  | '\r' :: '\n' :: r => '\n' :: normalized r
  | c :: r =>
    (if c == '\r' || c == '\u0085' || c == '\u2028' || c == '\u2029' then '\n' else c) ::
      normalized r

/-- The character may stand in a document. -/
def isAllowed (c : Char) : Bool :=
  let n := c.toNat
  n == 9 || n == 10 || n == 13 || (0x20 ≤ n && n ≤ 0x7E) || n == 0x85 || (0xA0 ≤ n && n < 0xD800) ||
    (0xE000 ≤ n && n < 0xFFFE && n != 0xFEFF) || 0x10000 ≤ n

/-- The start of the only document among lines, and the lines that may follow it. -/
structure Outline where
  first : Place
  after : List (List Char)

/-- The lines joined again. -/
def unlines (lines : List (List Char)) : List Char :=
  lines.flatMap fun l => l ++ ['\n']

/-- Takes lines apart into a document and what comes after it. -/
def outline (lines : List (List Char)) : Outline :=
  let marked := fun l => isMark '-' l || isMark '.' l
  let idle := lines.takeWhile fun l => isIdle l && !marked l
  let lines := lines.drop idle.length
  match lines with
  | [] => ⟨⟨[], 0, true⟩, []⟩
  | first :: rest =>
    let body := rest.takeWhile fun l => !marked l
    let after := rest.drop body.length
    if isMark '-' first then ⟨⟨unlines (first.drop 3 :: body), 3, false⟩, after⟩
    else if isMark '.' first then ⟨⟨[], 0, true⟩, rest⟩
    else ⟨⟨unlines (first :: body), 0, true⟩, after⟩

/-- Nothing follows a document but the mark that ends it and idle lines. -/
def endsDocument : List (List Char) → Bool
  | [] => true
  | l :: rest => (isIdle l || (isMark '.' l && isIdle (l.drop 3))) && endsDocument rest

/-- The node of a text that is one document; a document without content has an absent node. -/
def read? (text : List Char) : Option Yaml :=
  let text := if text.head? == some '\uFEFF' then text.drop 1 else text
  if !text.all isAllowed then none
  else
    let o := outline (Text.pieces '\n' (normalized text))
    if !endsDocument o.after then none
    else
      let p := o.first.next false o.first.fresh
      if p.atEnd then some absent
      else do
        let (node, q) ← node? (4 * text.length + 4) 0 p.fresh p
        if (q.next false false).atEnd then some node else none

end DocWiring.Yaml
