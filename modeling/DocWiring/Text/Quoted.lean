import DocWiring.Text.Printable

/-! # Quoted texts

The quoted form of a text or of one character, as messages show it: the quote, the backslash and
the usual control characters are escaped with a backslash, and every other character that would
not show is written as its code point in hexadecimal between braces.
-/

namespace DocWiring.Text

/-- The code point of a character as a hexadecimal escape. -/
def codePointEscape (c : Char) : List Char :=
  ['\\', 'u', '{'] ++ Nat.toDigits 16 c.toNat ++ ['}']

/-- One character inside quotes of the kind `quote`. -/
def quotedChar (quote c : Char) : List Char :=
  if c = '\x00' then ['\\', '0']
  else if c = '\t' then ['\\', 't']
  else if c = '\r' then ['\\', 'r']
  else if c = '\n' then ['\\', 'n']
  else if c = '\\' then ['\\', '\\']
  else if c = quote then ['\\', quote]
  else if isPlain c then [c]
  else codePointEscape c

/-- The text between quotes. -/
def quoted (quote : Char) (t : List Char) : String :=
  String.ofList (quote :: t.flatMap (quotedChar quote) ++ [quote])

def quotedText (t : String) : String :=
  quoted '"' t.toList

def quotedLetter (c : Char) : String :=
  quoted '\'' [c]

end DocWiring.Text
