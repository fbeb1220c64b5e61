import DocWiring.Proofs.Source.Encoding

/-! # Files that could be read in both encodings

A file in ISO-8859-1 is read as UTF-8 as soon as its bytes happen to be UTF-8.  Whether they are is decided
apart before and after each character of ASCII, and so line by line.
-/

namespace DocWiring

theorem isValidUTF8_append_iff {front rest : ByteArray} (hPos : 0 < rest.size)
    (hFirst : rest[0].IsUTF8FirstByte) :
    (front ++ rest).IsValidUTF8 ↔ front.IsValidUTF8 ∧ rest.IsValidUTF8 := by
  constructor
  · intro h
    let s : String := ⟨front ++ rest, h⟩
    have hSize : s.utf8ByteSize = front.size + rest.size := ByteArray.size_append
    have hInside : (⟨front.size⟩ : String.Pos.Raw) < s.rawEndPos := by
      rw [String.Pos.Raw.lt_iff, String.byteIdx_rawEndPos, hSize]
      exact Nat.lt_add_of_pos_right hPos
    have hByte : (s.getUTF8Byte ⟨front.size⟩ hInside).IsUTF8FirstByte := by
      simpa [String.getUTF8Byte, s, ByteArray.getElem_append_right] using hFirst
    have hValid : String.Pos.Raw.IsValid s ⟨front.size⟩ :=
      String.Pos.Raw.isValid_iff_isUTF8FirstByte.mpr (.inr ⟨hInside, hByte⟩)
    have hFront := (String.Pos.Raw.isValid_iff_isValidUTF8_extract_zero.mp hValid).2
    have hRest := hValid.isValidUTF8_extract_utf8ByteSize
    rw [ByteArray.extract_append_eq_left rfl] at hFront
    rw [ByteArray.extract_append_eq_right rfl hSize] at hRest
    exact ⟨hFront, hRest⟩
  · rintro ⟨hFront, hRest⟩
    exact hFront.append hRest

theorem isValidUTF8_append_char_iff {front back : ByteArray} {c : Char} :
    (front ++ ([c].utf8Encode ++ back)).IsValidUTF8 ↔ front.IsValidUTF8 ∧ back.IsValidUTF8 := by
  have hPos : 0 < ([c].utf8Encode ++ back).size := by
    have hChar := c.utf8Size_pos
    rw [ByteArray.size_append, List.utf8Encode_singleton, List.size_toByteArray,
      String.length_utf8EncodeChar]
    omega
  have hFirst : ([c].utf8Encode ++ back)[0].IsUTF8FirstByte := by
    simp only [List.utf8Encode_singleton]
    exact ByteArray.isUTF8FirstByte_getElem_zero_utf8EncodeChar_append
  rw [isValidUTF8_append_iff hPos hFirst, ByteArray.isValidUTF8_utf8Encode_singleton_append_iff]

namespace Encoding

/-- The bytes of the text in ISO-8859-1 are UTF-8 as well. -/
def Ambiguous (t : List Char) : Prop :=
  ∃ bytes, latin1.encode t = .ok bytes ∧ bytes.IsValidUTF8

theorem encode_latin1_ascii {c : Char} (hc : c.toNat < 128) :
    latin1.encode [c] = .ok [c].utf8Encode := by
  have hOne : c.utf8Size = 1 := by
    rw [Char.utf8Size_eq_one_iff, UInt32.le_iff_toNat_le]
    exact Nat.le_of_lt_succ hc
  have hSmall : c.toNat < 256 := by omega
  rw [List.utf8Encode_singleton, String.utf8EncodeChar_eq_singleton hOne, encode_latin1_eq_ok_iff,
    List.data_toByteArray, latin1Bytes, if_pos hSmall]
  rfl

theorem ambiguous_nil : Ambiguous [] :=
  ⟨_, rfl, ByteArray.isValidUTF8_empty⟩

theorem ambiguous_append_cons_iff {s t : List Char} {c : Char} (hc : c.toNat < 128) :
    Ambiguous (s ++ c :: t) ↔ Ambiguous s ∧ Ambiguous t := by
  constructor
  · rintro ⟨bytes, hBytes, hValid⟩
    obtain ⟨front, rest, hFront, hRest, rfl⟩ := encode_append hBytes
    obtain ⟨middle, back, hMiddle, hBack, rfl⟩ := encode_append (s := [c]) hRest
    obtain rfl := Except.ok.inj (hMiddle.symm.trans (encode_latin1_ascii hc))
    obtain ⟨hLeft, hRight⟩ := isValidUTF8_append_char_iff.mp hValid
    exact ⟨⟨front, hFront, hLeft⟩, back, hBack, hRight⟩
  · rintro ⟨⟨front, hFront, hLeft⟩, back, hBack, hRight⟩
    have hRest := encode_latin1_append (encode_latin1_ascii hc) hBack
    exact ⟨_, encode_latin1_append hFront hRest, isValidUTF8_append_char_iff.mpr ⟨hLeft, hRight⟩⟩

theorem ambiguous_concat_iff {s : List Char} {c : Char} (hc : c.toNat < 128) :
    Ambiguous (s ++ [c]) ↔ Ambiguous s := by
  rw [ambiguous_append_cons_iff hc]
  exact and_iff_left ambiguous_nil

theorem ambiguous_cons_iff {t : List Char} {c : Char} (hc : c.toNat < 128) :
    Ambiguous (c :: t) ↔ Ambiguous t := by
  rw [← List.nil_append (c :: t), ambiguous_append_cons_iff hc]
  exact and_iff_right ambiguous_nil

theorem ambiguous_append_isEol_iff {s e : List Char} (he : Line.IsEol e) :
    Ambiguous (s ++ e) ↔ Ambiguous s := by
  rcases he with rfl | rfl
  · exact ambiguous_concat_iff (by decide)
  · rw [List.append_cons, ambiguous_concat_iff (by decide), ambiguous_concat_iff (by decide)]

/-- Lines that end in a line feed are ambiguous one by one. -/
theorem ambiguous_flatten_append_iff {ls : List Line} (h : ∀ l ∈ ls, l.getLast? = some '\n')
    (t : List Char) : Ambiguous (ls.flatten ++ t) ↔ (∀ l ∈ ls, Ambiguous l) ∧ Ambiguous t := by
  induction ls with
  | nil => simp
  | cons l ls ih =>
    obtain ⟨hHead, hTail⟩ := List.forall_mem_cons.mp h
    obtain ⟨body, rfl⟩ := List.getLast?_eq_some_iff.mp hHead
    have hSplit : ((body ++ ['\n']) :: ls).flatten ++ t = body ++ '\n' :: (ls.flatten ++ t) := by simp
    rw [hSplit, ambiguous_append_cons_iff (by decide), ih hTail, List.forall_mem_cons,
      ambiguous_concat_iff (by decide), and_assoc]

end Encoding

namespace Line

open Encoding

theorem Whole.getLast? {l : Line} (h : Whole l) : l.getLast? = some '\n' := by
  obtain ⟨body, _, rfl⟩ := h
  exact List.getLast?_concat

theorem AreCut.ambiguous_iff {ls : List Line} (h : AreCut ls) :
    Ambiguous ls.flatten ↔ ∀ l ∈ ls, Ambiguous l := by
  rcases List.eq_nil_or_concat ls with rfl | ⟨init, last, rfl⟩
  · simp [ambiguous_nil]
  · rw [List.concat_eq_append] at h ⊢
    have hInit : ∀ l ∈ init, l.getLast? = some '\n' :=
      fun l hl => (h.whole_of_append (by simp) l hl).getLast?
    rw [List.flatten_append, List.flatten_singleton, ambiguous_flatten_append_iff hInit,
      List.forall_mem_append, List.forall_mem_singleton]

end Line

namespace SourceUnit

open Encoding

variable {u : SourceUnit} {bytes : ByteArray}

theorem encoding_ofBytes_eq_latin1_iff :
    (ofBytes bytes).encoding = .latin1 ↔ bytes.utf8Decode? = none := by
  unfold ofBytes decode
  cases bytes.utf8Decode? <;> simp

theorem utf8Decode?_eq_none_iff (h : latin1.encode u.text = .ok bytes) :
    bytes.utf8Decode? = none ↔ ¬ Ambiguous u.text := by
  rw [← Option.not_isSome_iff_eq_none, ByteArray.isSome_utf8Decode?_iff]
  unfold Ambiguous
  rw [h]
  simp

/-- A file is read in the encoding it was written in, unless its text is ambiguous. -/
theorem encoding_of_toBytes (hBytes : u.toBytes = .ok bytes)
    (hClear : u.encoding = .latin1 → ¬ Ambiguous u.text) : (ofBytes bytes).encoding = u.encoding := by
  rw [toBytes_eq_ok_iff] at hBytes
  cases hEncoding : u.encoding with
  | utf8 =>
    rw [hEncoding] at hBytes
    rw [← Except.ok.inj hBytes, ofBytes_toByteArray]
    rfl
  | latin1 =>
    rw [hEncoding] at hBytes
    exact encoding_ofBytes_eq_latin1_iff.mpr ((utf8Decode?_eq_none_iff hBytes).mpr (hClear hEncoding))

theorem not_ambiguous_of_latin1 (h : (ofBytes bytes).encoding = .latin1) :
    ¬ Ambiguous (ofBytes bytes).text := by
  have hBytes := encode_text_ofBytes bytes
  rw [h] at hBytes
  exact (utf8Decode?_eq_none_iff hBytes).mp (encoding_ofBytes_eq_latin1_iff.mp h)

end SourceUnit

end DocWiring
