/-! # JSON values

Values and how they are printed: one item to a line, two more spaces to every level.
-/

namespace DocWiring

/-- A JSON value.  A number is kept as it was written.  A string that names half a character has no
text. -/
inductive Json where
  | null
  | bool (value : Bool)
  | number (digits : List Char)
  | string (text : Option String)
  | array (items : List Json)
  | object (fields : List (Option String × Json))

namespace Json

def ofString (s : String) : Json := .string (some s)

def ofFields (fields : List (String × Json)) : Json :=
  .object (fields.map fun f => (some f.1, f.2))

def ofNat (n : Nat) : Json := .number (Nat.toDigits 10 n)

/-- The digits of a code point below 256 in base sixteen. -/
def twoHexDigits (n : Nat) : List Char :=
  [Nat.digitChar (n / 16), Nat.digitChar (n % 16)]

/-- One character inside a string. -/
def escapeChar (c : Char) : List Char :=
  if c = '"' then ['\\', '"']
  else if c = '\\' then ['\\', '\\']
  else if c = '\x08' then ['\\', 'b']
  else if c = '\t' then ['\\', 't']
  else if c = '\n' then ['\\', 'n']
  else if c = '\x0c' then ['\\', 'f']
  else if c = '\r' then ['\\', 'r']
  else if c.toNat < 0x20 then ['\\', 'u', '0', '0'] ++ twoHexDigits c.toNat
  else [c]

/-- A string between quotes. -/
def quote (text : String) : List Char :=
  '"' :: text.toList.flatMap escapeChar ++ ['"']

/-- A new line at a level. -/
def newLine (level : Nat) : List Char :=
  '\n' :: List.replicate (2 * level) ' '

mutual

/-- A value at a level, printed over several lines unless it has no parts. -/
def print (level : Nat) : Json → List Char
  | .null => ['n', 'u', 'l', 'l']
  | .bool true => ['t', 'r', 'u', 'e']
  | .bool false => ['f', 'a', 'l', 's', 'e']
  | .number digits => digits
  | .string text => quote (text.getD "")
  | .array [] => ['[', ']']
  | .array (item :: rest) =>
    '[' :: newLine (level + 1) ++ print (level + 1) item ++ printItems (level + 1) rest ++
      newLine level ++ [']']
  | .object [] => ['{', '}']
  | .object (field :: rest) =>
    '{' :: newLine (level + 1) ++ printField (level + 1) field ++ printFields (level + 1) rest ++
      newLine level ++ ['}']

def printItems (level : Nat) : List Json → List Char
  | [] => []
  | item :: rest => ',' :: newLine level ++ print level item ++ printItems level rest

def printField (level : Nat) : Option String × Json → List Char
  | (key, value) => quote (key.getD "") ++ [':', ' '] ++ print level value

def printFields (level : Nat) : List (Option String × Json) → List Char
  | [] => []
  | field :: rest => ',' :: newLine level ++ printField level field ++ printFields level rest

end

end Json

end DocWiring
