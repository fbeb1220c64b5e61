import DocWiring.Proofs.Source.Ambiguous

/-! # Canonical lines

Reading a file loses nothing, and the lines that it gives are in a canonical form: no line is empty, a
line feed ends its line, and only the last line can lack one.  The lines of this form are the ones that
come from a text, so that any run of them is cut again as it was.
-/

namespace DocWiring

namespace Line

/-- Lines as a text is cut into them. -/
structure Canonical (ls : List Line) : Prop where
  ne_nil : ∀ l ∈ ls, l ≠ []
  feed_last : ∀ l ∈ ls, '\n' ∉ l.dropLast
  terminated : ∀ l ∈ ls.dropLast, l.getLast? = some '\n'

theorem whole_iff {l : Line} : Whole l ↔ l.getLast? = some '\n' ∧ '\n' ∉ l.dropLast := by
  constructor
  · rintro ⟨body, hBody, rfl⟩
    exact ⟨List.getLast?_concat, by simpa using hBody⟩
  · rintro ⟨hLast, hFree⟩
    obtain ⟨body, rfl⟩ := List.getLast?_eq_some_iff.mp hLast
    exact ⟨body, by simpa using hFree, rfl⟩

theorem ofText_of_not_mem {l : Line} (hNil : l ≠ []) (hFree : '\n' ∉ l) : ofText l = [l] := by
  induction l with
  | nil => exact absurd rfl hNil
  | cons c r ih =>
    rw [List.mem_cons, not_or] at hFree
    rw [ofText, if_neg (Ne.symm hFree.1)]
    cases r with
    | nil => rfl
    | cons d r => rw [ih (by simp) hFree.2]

theorem areCut_singleton_iff {l : Line} : AreCut [l] ↔ l ≠ [] ∧ '\n' ∉ l.dropLast := by
  constructor
  · intro h
    obtain ⟨_, hNil, hKind⟩ := areCut_cons h
    refine ⟨hNil, ?_⟩
    rcases hKind with hWhole | ⟨_, hFree⟩
    · exact (whole_iff.mp hWhole).2
    · exact fun hMem => hFree ((List.dropLast_sublist l).subset hMem)
  · rintro ⟨hNil, hInside⟩
    rcases List.eq_nil_or_concat l with rfl | ⟨init, c, rfl⟩
    · exact absurd rfl hNil
    · rw [List.concat_eq_append, List.dropLast_concat] at hInside
      rw [List.concat_eq_append]
      by_cases hFeed : c = '\n'
      · subst hFeed
        exact areCut_of_whole (List.forall_mem_singleton.mpr ⟨init, hInside, rfl⟩)
      · rw [AreCut, List.flatten_singleton]
        exact ofText_of_not_mem (by simp) (by simp [hInside, Ne.symm hFeed])

theorem canonical_nil : Canonical [] :=
  ⟨by simp, by simp, by simp⟩

theorem canonical_concat_iff {ls : List Line} {l : Line} :
    Canonical (ls ++ [l]) ↔ (∀ k ∈ ls, Whole k) ∧ l ≠ [] ∧ '\n' ∉ l.dropLast := by
  constructor
  · intro h
    have hLast : l ∈ ls ++ [l] := by simp
    refine ⟨fun k hk => whole_iff.mpr ⟨?_, ?_⟩, h.ne_nil l hLast, h.feed_last l hLast⟩
    · exact h.terminated k (by simpa using hk)
    · exact h.feed_last k (List.mem_append_left _ hk)
  · rintro ⟨hWhole, hNil, hInside⟩
    constructor
    · rw [List.forall_mem_append, List.forall_mem_singleton]
      exact ⟨fun k hk => (hWhole k hk).ne_nil, hNil⟩
    · rw [List.forall_mem_append, List.forall_mem_singleton]
      exact ⟨fun k hk => (whole_iff.mp (hWhole k hk)).2, hInside⟩
    · rw [List.dropLast_concat]
      exact fun k hk => (hWhole k hk).getLast?

theorem areCut_concat_iff {ls : List Line} {l : Line} :
    AreCut (ls ++ [l]) ↔ (∀ k ∈ ls, Whole k) ∧ AreCut [l] := by
  constructor
  · intro h
    exact ⟨h.whole_of_append (by simp), by simpa using h.drop ls.length⟩
  · rintro ⟨hWhole, hLast⟩
    exact AreCut.append hWhole hLast

theorem areCut_iff_canonical (ls : List Line) : AreCut ls ↔ Canonical ls := by
  rcases List.eq_nil_or_concat ls with rfl | ⟨init, last, rfl⟩
  · exact iff_of_true rfl canonical_nil
  · rw [List.concat_eq_append, areCut_concat_iff, canonical_concat_iff, areCut_singleton_iff]

theorem AreCut.run {ls run : List Line} (h : AreCut ls) (hRun : run <:+: ls) : AreCut run := by
  obtain ⟨front, back, rfl⟩ := hRun
  have hTaken := (h.drop front.length).take run.length
  rwa [List.append_assoc, List.drop_left, List.take_left] at hTaken

end Line

namespace SourceUnit

theorem encoding_ofBytes_eq_utf8_iff {bytes : ByteArray} :
    (ofBytes bytes).encoding = .utf8 ↔ bytes.IsValidUTF8 := by
  rw [← ByteArray.isSome_utf8Decode?_iff, Option.isSome_iff_ne_none, ne_eq,
    ← encoding_ofBytes_eq_latin1_iff]
  cases (ofBytes bytes).encoding <;> simp

theorem ofText_flatten_eq_iff {ls : List Line} :
    ofText ls.flatten = ofLines ls ↔ Line.AreCut ls := by
  rw [ofText, ofLines, SourceUnit.mk.injEq, and_iff_left rfl]
  rfl

/-- A file that was read is written with the same bytes, in UTF-8 exactly if they are that.  Its lines are
canonical, which is what makes lines those of their own text, and so is any run of them. -/
theorem toBytes_ofBytes (bytes : ByteArray) :
    (ofBytes bytes).toBytes = .ok bytes ∧
    ((ofBytes bytes).encoding = .utf8 ↔ bytes.IsValidUTF8) ∧
    Line.Canonical (ofBytes bytes).lines ∧
    (∀ ls, ofText ls.flatten = ofLines ls ↔ Line.Canonical ls) ∧
    ∀ run, run <:+: (ofBytes bytes).lines → ofText run.flatten = ofLines run := by
  have hCut : Line.AreCut (ofBytes bytes).lines := IsRead.areCut (.inr ⟨bytes, rfl⟩)
  refine ⟨toBytes_eq_ok_iff.mpr (encode_text_ofBytes bytes), encoding_ofBytes_eq_utf8_iff,
    (Line.areCut_iff_canonical _).mp hCut, ?_, ?_⟩
  · intro ls
    rw [ofText_flatten_eq_iff, Line.areCut_iff_canonical]
  · intro run hRun
    exact ofText_flatten_eq_iff.mpr (hCut.run hRun)

/-- Bytes that are not UTF-8, with both ends of line, a lone carriage return and a last line without an end. -/
def mixedBytes : ByteArray :=
  ⟨#[0xE9, 0x0D, 0x0D, 0x0A, 0x0A, 0x61, 0x0D, 0x62]⟩

theorem toBytes_ofBytes_mixed :
    (ofBytes mixedBytes).toBytes = .ok mixedBytes ∧ ¬ mixedBytes.IsValidUTF8 ∧
    (ofBytes mixedBytes).lines = ["é\r\r\n".toList, "\n".toList, "a\rb".toList] ∧
    ofText "\na\rb".toList = ofLines ["\n".toList, "a\rb".toList] := by
  obtain ⟨hBack, hEncoding, _, _, hRuns⟩ := toBytes_ofBytes mixedBytes
  have hLines : (ofBytes mixedBytes).lines =
      ["é\r\r\n".toList, "\n".toList, "a\rb".toList] := by decide +kernel
  refine ⟨hBack, ?_, hLines, ?_⟩
  · rw [← hEncoding]
    decide +kernel
  · exact hRuns ["\n".toList, "a\rb".toList] (hLines ▸ (List.suffix_cons _ _).isInfix)

end SourceUnit

end DocWiring
