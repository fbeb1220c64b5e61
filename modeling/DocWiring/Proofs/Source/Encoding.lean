import DocWiring.Proofs.Source.Lines

/-! # Texts and their bytes

The bytes of a text are put together from the bytes of its parts, and a file that has been read has
the bytes that it was read from.
-/

namespace DocWiring

namespace Encoding

/-- A text has bytes in ISO-8859-1 if every character has one, and then they are these. -/
theorem latin1Bytes_eq_ok_iff {t : List Char} {bytes : List UInt8} :
    latin1Bytes t = .ok bytes ↔
      (∀ c ∈ t, c.toNat < 256) ∧ bytes = t.map fun c => UInt8.ofNat c.toNat := by
  induction t generalizing bytes with
  | nil => simp [latin1Bytes, eq_comm]
  | cons c t ih =>
    rw [latin1Bytes, List.forall_mem_cons, List.map_cons]
    split
    next hSmall =>
      split
      next rest hRest =>
        obtain ⟨hAll, rfl⟩ := ih.mp hRest
        simpa [hSmall, eq_comm] using fun _ => hAll
      next hRest =>
        have hSome : ¬ ∀ d ∈ t, d.toNat < 256 := fun hAll => by
          rw [ih.mpr ⟨hAll, rfl⟩] at hRest
          cases hRest
        simp [hSome]
    next hLarge => simp [hLarge]

theorem latin1Bytes_append {s t : List Char} {bytes : List UInt8}
    (h : latin1Bytes (s ++ t) = .ok bytes) :
    ∃ left right, latin1Bytes s = .ok left ∧ latin1Bytes t = .ok right ∧
      bytes = left ++ right := by
  obtain ⟨hSmall, rfl⟩ := latin1Bytes_eq_ok_iff.mp h
  obtain ⟨hs, ht⟩ := List.forall_mem_append.mp hSmall
  exact ⟨_, _, latin1Bytes_eq_ok_iff.mpr ⟨hs, rfl⟩, latin1Bytes_eq_ok_iff.mpr ⟨ht, rfl⟩,
    List.map_append⟩

theorem latin1Bytes_append_of_ok {s t : List Char} {left right : List UInt8}
    (hs : latin1Bytes s = .ok left) (ht : latin1Bytes t = .ok right) :
    latin1Bytes (s ++ t) = .ok (left ++ right) := by
  obtain ⟨hLeft, rfl⟩ := latin1Bytes_eq_ok_iff.mp hs
  obtain ⟨hRight, rfl⟩ := latin1Bytes_eq_ok_iff.mp ht
  exact latin1Bytes_eq_ok_iff.mpr ⟨List.forall_mem_append.mpr ⟨hLeft, hRight⟩, List.map_append.symm⟩

theorem latin1Chars_of_latin1Bytes {t : List Char} {bytes : List UInt8}
    (h : latin1Bytes t = .ok bytes) : latin1Chars bytes = t := by
  obtain ⟨hSmall, rfl⟩ := latin1Bytes_eq_ok_iff.mp h
  have hBack : ∀ c ∈ t, Char.ofNat (UInt8.ofNat c.toNat).toNat = c := by
    intro c hc
    rw [UInt8.toNat_ofNat_of_lt' (hSmall c hc), Char.ofNat_toNat]
  rw [latin1Chars, List.map_map]
  exact (List.map_congr_left hBack).trans (List.map_id t)

theorem latin1Bytes_injective {s t : List Char} {bytes : List UInt8} (hs : latin1Bytes s = .ok bytes)
    (ht : latin1Bytes t = .ok bytes) : s = t :=
  (latin1Chars_of_latin1Bytes hs).symm.trans (latin1Chars_of_latin1Bytes ht)

theorem encode_latin1_eq_ok_iff {t : List Char} {bytes : ByteArray} :
    latin1.encode t = .ok bytes ↔ latin1Bytes t = .ok bytes.data.toList := by
  unfold encode
  dsimp only
  cases latin1Bytes t with
  | error c => simp [Except.map]
  | ok all =>
    constructor
    · intro h
      rw [← Except.ok.inj h]
    · intro h
      rw [Except.ok.inj h]
      rfl

theorem encode_append {e : Encoding} {s t : List Char} {bytes : ByteArray}
    (h : e.encode (s ++ t) = .ok bytes) :
    ∃ left right, e.encode s = .ok left ∧ e.encode t = .ok right ∧ bytes = left ++ right := by
  cases e with
  | utf8 =>
    refine ⟨_, _, rfl, rfl, ?_⟩
    rw [← Except.ok.inj h, String.ofList_append, String.toByteArray_append]
  | latin1 =>
    obtain ⟨left, right, hLeft, hRight, hAll⟩ := latin1Bytes_append (encode_latin1_eq_ok_iff.mp h)
    refine ⟨⟨left.toArray⟩, ⟨right.toArray⟩, encode_latin1_eq_ok_iff.mpr hLeft,
      encode_latin1_eq_ok_iff.mpr hRight, ?_⟩
    apply ByteArray.ext
    apply Array.toList_inj.mp
    rw [hAll, ByteArray.toList_data_append]

theorem encode_latin1_append {s t : List Char} {left right : ByteArray}
    (hs : latin1.encode s = .ok left) (ht : latin1.encode t = .ok right) :
    latin1.encode (s ++ t) = .ok (left ++ right) := by
  rw [encode_latin1_eq_ok_iff] at hs ht ⊢
  rw [ByteArray.toList_data_append]
  exact latin1Bytes_append_of_ok hs ht

/-- What has been decoded is encoded again by the same bytes. -/
theorem encode_decode (bytes : ByteArray) :
    (decode bytes).1.encode (decode bytes).2 = .ok bytes := by
  unfold decode
  cases hDecode : bytes.utf8Decode? with
  | none => simp [encode, latin1Bytes_latin1Chars, Except.map]
  | some cs =>
    have hSome : bytes.utf8Decode?.isSome := by simp [hDecode]
    have hBack := ByteArray.utf8Encode_get_utf8Decode? (h := hSome)
    simp only [hDecode, Option.get_some] at hBack
    simp [encode, hBack]

theorem encode_injective {e : Encoding} {s t : List Char} {bytes : ByteArray}
    (hs : e.encode s = .ok bytes) (ht : e.encode t = .ok bytes) : s = t := by
  cases e with
  | utf8 =>
    have hSame := (Except.ok.inj hs).trans (Except.ok.inj ht).symm
    exact String.ofList_inj.mp (String.toByteArray_inj.mp hSame)
  | latin1 => exact latin1Bytes_injective (encode_latin1_eq_ok_iff.mp hs) (encode_latin1_eq_ok_iff.mp ht)

theorem utf8Decode?_toByteArray (s : String) : s.toByteArray.utf8Decode? = some s.toList.toArray := by
  rw [← List.utf8Decode?_utf8Encode, ← String.toByteArray_ofList, String.ofList_toList]

theorem decode_toByteArray (s : String) : decode s.toByteArray = (.utf8, s.toList) := by
  rw [decode, utf8Decode?_toByteArray]

end Encoding

namespace SourceUnit

theorem toBytes_eq_ok_iff {u : SourceUnit} {bytes : ByteArray} :
    u.toBytes = .ok bytes ↔ u.encoding.encode u.text = .ok bytes := by
  unfold toBytes
  cases u.encoding.encode u.text <;> simp

theorem encode_text_ofBytes (bytes : ByteArray) :
    (ofBytes bytes).encoding.encode (ofBytes bytes).text = .ok bytes := by
  have hText : (ofBytes bytes).text = (Encoding.decode bytes).2 := Line.flatten_ofText _
  rw [hText]
  exact Encoding.encode_decode bytes

theorem text_of_toBytes {u : SourceUnit} {bytes : ByteArray} (hBytes : u.toBytes = .ok bytes)
    (hEncoding : (ofBytes bytes).encoding = u.encoding) : (ofBytes bytes).text = u.text := by
  apply Encoding.encode_injective (encode_text_ofBytes bytes)
  rw [hEncoding]
  exact toBytes_eq_ok_iff.mp hBytes

theorem ofBytes_of_toBytes {u : SourceUnit} {bytes : ByteArray} (hCut : Line.AreCut u.lines)
    (hBytes : u.toBytes = .ok bytes) (hEncoding : (ofBytes bytes).encoding = u.encoding) :
    ofBytes bytes = u := by
  have hText := text_of_toBytes hBytes hEncoding
  have hRead : Line.AreCut (ofBytes bytes).lines := Line.areCut_ofText _
  have hLines : (ofBytes bytes).lines = u.lines := by
    rw [← hRead, ← hCut]
    exact congrArg Line.ofText hText
  calc
    ofBytes bytes = ⟨(ofBytes bytes).lines, (ofBytes bytes).encoding⟩ := rfl
    _ = ⟨u.lines, u.encoding⟩ := by rw [hLines, hEncoding]

theorem ofBytes_toByteArray (s : String) : ofBytes s.toByteArray = ofText s.toList := by
  simp [ofBytes, Encoding.decode_toByteArray, ofText]

end SourceUnit

end DocWiring
