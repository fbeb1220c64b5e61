import DocWiring.Json.Value

/-! # Reading JSON

A reader takes a value from the front of a text and gives what is left.  The grammar is strict: no
comments, no commas at the end, no control characters in strings, nothing after the value.
-/

namespace DocWiring.Json

def isSpace (c : Char) : Bool :=
  c == ' ' || c == '\t' || c == '\n' || c == '\r'

def skipSpace (cs : List Char) : List Char :=
  cs.dropWhile isSpace

/-- The value of a hexadecimal digit. -/
def hexValue? (c : Char) : Option Nat :=
  if '0' ≤ c && c ≤ '9' then some (c.toNat - '0'.toNat)
  else if 'a' ≤ c && c ≤ 'f' then some (c.toNat - 'a'.toNat + 10)
  else if 'A' ≤ c && c ≤ 'F' then some (c.toNat - 'A'.toNat + 10)
  else none

/-- The number that four hexadecimal digits stand for. -/
def hexUnit? (a b c d : Char) : Option Nat := do
  return (((← hexValue? a) * 16 + (← hexValue? b)) * 16 + (← hexValue? c)) * 16 + (← hexValue? d)

/-- The character that a letter after a backslash stands for. -/
def shortEscape? (c : Char) : Option Char :=
  match c with
  | '"' => some '"'
  | '\\' => some '\\'
  | '/' => some '/'
  | 'b' => some '\x08'
  | 'f' => some '\x0c'
  | 'n' => some '\n'
  | 'r' => some '\r'
  | 't' => some '\t'
  | _ => none

/-- The code units of a string after its opening quote, and what follows its closing quote.  An
escape gives one unit, a plain character its code point. -/
def units? : List Char → Option (List Nat × List Char)
  | [] => none
  | '"' :: r => some ([], r)
  | '\\' :: 'u' :: a :: b :: c :: d :: r => do
    let unit ← hexUnit? a b c d
    let (units, rest) ← units? r
    return (unit :: units, rest)
  | '\\' :: c :: r => do
    let e ← shortEscape? c
    let (units, rest) ← units? r
    return (e.toNat :: units, rest)
  | c :: r => do
    if c.toNat < 0x20 then none
    let (units, rest) ← units? r
    return (c.toNat :: units, rest)

/-- The first half of a character beyond the first plane. -/
def isHighHalf (n : Nat) : Bool := 0xD800 ≤ n && n < 0xDC00

/-- The second half of a character beyond the first plane. -/
def isLowHalf (n : Nat) : Bool := 0xDC00 ≤ n && n < 0xE000

/-- The characters that code units stand for, unless a half is left alone. -/
def joinUnits : List Nat → Option (List Char)
  | [] => some []
  | h :: l :: r =>
    if isHighHalf h then
      if isLowHalf l then
        (joinUnits r).map fun cs => Char.ofNat (0x10000 + (h - 0xD800) * 0x400 + (l - 0xDC00)) :: cs
      else none
    else if isLowHalf h then none
    else (joinUnits (l :: r)).map fun cs => Char.ofNat h :: cs
  | [n] => if isHighHalf n || isLowHalf n then none else some [Char.ofNat n]

/-- The text of a string after its opening quote, and what follows its closing quote. -/
def stringBody? (cs : List Char) : Option (Option String × List Char) := do
  let (units, rest) ← units? cs
  return ((joinUnits units).map String.ofList, rest)

/-- One digit or more, and what follows them. -/
def digits? (cs : List Char) : Option (List Char × List Char) :=
  let ds := cs.takeWhile Char.isDigit
  if ds.isEmpty then none else some (ds, cs.dropWhile Char.isDigit)

/-- The whole part of a number: a zero alone, or digits that do not start with one. -/
def wholePart? : List Char → Option (List Char × List Char)
  | '0' :: r => some (['0'], r)
  | cs => digits? cs

/-- The part of a number after the point, if there is one. -/
def fractionPart? : List Char → Option (List Char × List Char)
  | '.' :: r => (digits? r).map fun p => ('.' :: p.1, p.2)
  | cs => some ([], cs)

/-- The sign of an exponent, if there is one. -/
def signPart : List Char → List Char × List Char
  | '+' :: r => (['+'], r)
  | '-' :: r => (['-'], r)
  | cs => ([], cs)

/-- The exponent of a number, if there is one. -/
def exponentPart? : List Char → Option (List Char × List Char)
  | e :: r =>
    if e == 'e' || e == 'E' then
      let (sign, r) := signPart r
      (digits? r).map fun p => (e :: sign ++ p.1, p.2)
    else some ([], e :: r)
  | [] => some ([], [])

/-- A number as it is written, and what follows it. -/
def number? (cs : List Char) : Option (List Char × List Char) := do
  let (sign, cs) := match cs with
    | '-' :: r => (['-'], r)
    | cs => ([], cs)
  let (whole, cs) ← wholePart? cs
  let (fraction, cs) ← fractionPart? cs
  let (exponent, cs) ← exponentPart? cs
  return (sign ++ whole ++ fraction ++ exponent, cs)

/-- What follows a word. -/
def afterWord? (word cs : List Char) : Option (List Char) :=
  if word.isPrefixOf cs then some (cs.drop word.length) else none

mutual

/-- A value after white space, and what follows it.  Values may be nested `fuel` deep at most. -/
def value? : Nat → List Char → Option (Json × List Char)
  | 0, _ => none
  | fuel + 1, cs =>
    match skipSpace cs with
    | [] => none
    | '"' :: r => (stringBody? r).map fun p => (.string p.1, p.2)
    | '[' :: r =>
      match skipSpace r with
      | ']' :: rest => some (.array [], rest)
      | _ => (items? fuel r).map fun p => (.array p.1, p.2)
    | '{' :: r =>
      match skipSpace r with
      | '}' :: rest => some (.object [], rest)
      | _ => (fields? fuel r).map fun p => (.object p.1, p.2)
    | 'n' :: r => (afterWord? ['u', 'l', 'l'] r).map fun rest => (.null, rest)
    | 't' :: r => (afterWord? ['r', 'u', 'e'] r).map fun rest => (.bool true, rest)
    | 'f' :: r => (afterWord? ['a', 'l', 's', 'e'] r).map fun rest => (.bool false, rest)
    | r => (number? r).map fun p => (.number p.1, p.2)

/-- One item or more up to a closing bracket, and what follows it. -/
def items? : Nat → List Char → Option (List Json × List Char)
  | 0, _ => none
  | fuel + 1, cs => do
    let (item, cs) ← value? fuel cs
    match skipSpace cs with
    | ',' :: r =>
      let (items, rest) ← items? fuel r
      return (item :: items, rest)
    | ']' :: rest => return ([item], rest)
    | _ => none

/-- One field or more up to a closing brace, and what follows it. -/
def fields? : Nat → List Char → Option (List (Option String × Json) × List Char)
  | 0, _ => none
  | fuel + 1, cs =>
    match skipSpace cs with
    | '"' :: r => do
      let (key, r) ← stringBody? r
      match skipSpace r with
      | ':' :: r =>
        let (value, r) ← value? fuel r
        match skipSpace r with
        | ',' :: r =>
          let (fields, rest) ← fields? fuel r
          return ((key, value) :: fields, rest)
        | '}' :: rest => return ([(key, value)], rest)
        | _ => none
      | _ => none
    | _ => none

end

def read? (text : List Char) : Option Json :=
  match value? (2 * text.length + 2) text with
  | some (v, rest) => if (skipSpace rest).isEmpty then some v else none
  | none => none

end DocWiring.Json
