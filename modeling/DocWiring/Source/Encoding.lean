/-! # Encodings

A file is UTF-8 if its bytes are, and otherwise ISO-8859-1, in which every byte is the character
of the same code point.
-/

namespace DocWiring

inductive Encoding where
  | utf8
  | latin1
deriving DecidableEq, Repr

namespace Encoding

/-- The characters that bytes stand for in ISO-8859-1. -/
def latin1Chars (bytes : List UInt8) : List Char :=
  bytes.map fun b => Char.ofNat b.toNat

/-- The bytes of a text in ISO-8859-1, or the first character that has none. -/
def latin1Bytes : List Char → Except Char (List UInt8)
  | [] => .ok []
  | c :: r =>
    if c.toNat < 256 then
      match latin1Bytes r with
      | .ok bytes => .ok (UInt8.ofNat c.toNat :: bytes)
      | .error d => .error d
    else .error c

/-- The encoding of a file and its text. -/
def decode (bytes : ByteArray) : Encoding × List Char :=
  match bytes.utf8Decode? with
  | some cs => (.utf8, cs.toList)
  | none => (.latin1, latin1Chars bytes.data.toList)

/-- The bytes of a text, or the first character that the encoding lacks. -/
def encode : Encoding → List Char → Except Char ByteArray
  | .utf8, cs => .ok (String.ofList cs).toByteArray
  | .latin1, cs => (latin1Bytes cs).map fun bytes => ⟨bytes.toArray⟩

theorem toNat_char_of_byte (b : UInt8) : (Char.ofNat b.toNat).toNat = b.toNat := by
  have small : b.toNat < 256 := b.toNat_lt
  have valid : b.toNat.isValidChar := Or.inl (by omega)
  rw [Char.ofNat, dif_pos valid]
  rfl

theorem latin1Bytes_latin1Chars (bytes : List UInt8) :
    latin1Bytes (latin1Chars bytes) = .ok bytes := by
  induction bytes with
  | nil => rfl
  | cons b r ih =>
    have small : b.toNat < 256 := b.toNat_lt
    have ih' : latin1Bytes (r.map fun b => Char.ofNat b.toNat) = .ok r := ih
    simp [latin1Chars, latin1Bytes, toNat_char_of_byte, small, ih']

end Encoding

end DocWiring
