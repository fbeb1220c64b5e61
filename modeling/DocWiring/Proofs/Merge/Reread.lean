import DocWiring.Proofs.Merge.InTurn
import DocWiring.Proofs.Source.Ambiguous

/-! # Reading what a merge has written

A merge that takes nothing out keeps every line, or takes it apart at characters of ASCII.  A file in
ISO-8859-1 has a line that is not UTF-8, and still has a piece of it that is not UTF-8 afterwards, so that
it is read in ISO-8859-1 again.
-/

namespace DocWiring

open Encoding

/-- What the patch puts into the lines can only be ambiguous if the lines were that it replaces. -/
structure Patch.Keeps (lines : List Line) (p : Patch) : Prop where
  inside : p.start < lines.length
  ended : ∀ l ∈ p.replacement, l.getLast? = some '\n'
  kept : (∀ l ∈ p.replacement, Ambiguous l) → ∀ l ∈ (lines.drop p.start).take p.count, Ambiguous l

namespace Patch

variable {u v : SourceUnit} {lines : List Line} {p : Patch} {ps : List Patch}

/-- Patches that keep the lines leave no ambiguous text of lines that are not. -/
theorem ambiguous_of_splice (hCut : Line.AreCut lines) (hKeeps : ∀ p ∈ ps, p.Keeps lines) {pos : Nat}
    (hPlaced : misplaced? lines.length pos ps = none)
    (h : Ambiguous (splice pos ps (lines.drop pos)).flatten) :
    ∀ l ∈ lines.drop pos, Ambiguous l := by
  induction ps generalizing pos with
  | nil => exact (hCut.drop pos).ambiguous_iff.mp h
  | cons p ps ih =>
    obtain ⟨hHere, hRest⟩ := List.forall_mem_cons.mp hKeeps
    obtain ⟨⟨hPos, _⟩, hBelow⟩ := misplaced?_cons_eq_none_iff.mp hPlaced
    have hStop : pos ≤ p.stop := Nat.le_trans hPos p.start_le_stop
    have hAfter : (lines.drop pos).drop (p.stop - pos) = lines.drop p.stop := by
      rw [List.drop_drop, Nat.add_sub_cancel' hStop]
    have hFrom : (lines.drop pos).drop (p.start - pos) = lines.drop p.start := by
      rw [List.drop_drop, Nat.add_sub_cancel' hPos]
    have hAbove : ∀ l ∈ (lines.drop pos).take (p.start - pos), l.getLast? = some '\n' := by
      have hSplit := hCut.drop pos
      rw [← List.take_append_drop (p.start - pos) (lines.drop pos), hFrom] at hSplit
      intro l hl
      apply (hSplit.whole_of_append _ l hl).getLast?
      simpa using hHere.inside
    rw [splice, List.flatten_append, List.flatten_append, List.append_assoc,
      ambiguous_flatten_append_iff hAbove, ambiguous_flatten_append_iff hHere.ended, hAfter] at h
    obtain ⟨hTake, hNew, hFlat⟩ := h
    have hOld := hHere.kept hNew
    have hLast := ih hRest hBelow hFlat
    intro l hl
    rw [← List.take_append_drop (p.start - pos) (lines.drop pos), hFrom,
      ← List.take_append_drop p.count (lines.drop p.start), List.drop_drop] at hl
    rcases List.mem_append.mp hl with hl | hl
    · exact hTake l hl
    · rcases List.mem_append.mp hl with hl | hl
      · exact hOld l hl
      · exact hLast l hl

theorem ambiguous_of_applyAll (hCut : Line.AreCut u.lines) (hKeeps : ∀ p ∈ ps, p.Keeps u.lines)
    (hApplied : applyAll u ps = .ok v) (h : Ambiguous v.text) : Ambiguous u.text := by
  obtain ⟨hPlaced, rfl⟩ := applyAll_eq_ok_iff.mp hApplied
  have hOrdered : ∀ p ∈ inOrder ps, p.Keeps u.lines := fun p hp => hKeeps p (mem_inOrder.mp hp)
  exact hCut.ambiguous_iff.mpr (ambiguous_of_splice hCut hOrdered hPlaced h)

end Patch

namespace Merge

open DocBlock

variable {x : Extractor} {u : SourceUnit} {cls : ClassNode} {extraction : Extraction}
  {rules : AttributeRules} {p : Patch} {b : DocBlock} {annotations : List Annotation}

theorem getLast?_of_isEol (t : List Char) {e : List Char} (he : Line.IsEol e) :
    (t ++ e).getLast? = some '\n' := by
  rcases he with rfl | rfl <;> simp

/-- Every line of a block with annotations ends in a line feed, whatever the annotations say. -/
theorem getLast?_of_mem_foldl_insert {first last : Line} {middle : List Line}
    (h : Framed b first middle last) {l : Line} (hl : l ∈ (annotations.foldl insert b).lines) :
    l.getLast? = some '\n' := by
  rcases h.mem_foldl_insert_iff.mp hl with hOld | ⟨a, _, rfl⟩
  · exact (h.whole l hOld).getLast?
  · exact getLast?_of_isEol _ h.isEol

/-- A line that is taken apart at its closing sign is only ambiguous if both new lines are. -/
theorem ambiguous_of_unfoldedLines {indent eol head tail : List Char} (hEol : Line.IsEol eol)
    (h : ∀ l ∈ unfoldedLines indent eol head tail, Ambiguous l) :
    Ambiguous (head ++ closing ++ tail) := by
  rw [unfoldedLines, List.forall_mem_cons, List.forall_mem_singleton,
    ambiguous_append_isEol_iff hEol] at h
  obtain ⟨hHead, hClosing⟩ := h
  have hEnd : Ambiguous (closingLine indent ++ tail) := by
    split at hClosing
    next => exact (ambiguous_append_isEol_iff hEol).mp hClosing
    next => rwa [List.append_nil] at hClosing
  have hSign : closingLine indent ++ tail = (indent ++ [' ', '*']) ++ '/' :: tail := by
    simp [closingLine, closing]
  rw [hSign, ambiguous_append_cons_iff (by decide)] at hEnd
  rw [List.append_assoc, closing, List.cons_append, List.cons_append, List.nil_append,
    ambiguous_append_cons_iff (by decide), ambiguous_cons_iff (by decide)]
  exact ⟨hHead, hEnd.2⟩

/-- The lines of a block are only ambiguous if those are that it stands for. -/
theorem ambiguous_of_locate (hCut : Line.AreCut u.lines) (hLocate : locate u cls = .ok b)
    (h : ∀ l ∈ b.lines, Ambiguous l) : ∀ l ∈ b.replaced, Ambiguous l := by
  obtain ⟨_, _, _, _, hFramed⟩ := framed_of_locate hCut hLocate
  have hEol := hFramed.isEol
  cases located_of_locate hLocate with
  | single _ hBlock hSingle =>
    obtain ⟨line, head, tail, hChecked, _, hReplaced, _, _, _, hLines, _⟩ :=
      ofComment_of_single hBlock hSingle
    rw [hLines] at h
    rw [hReplaced, List.forall_mem_singleton, hChecked.line_eq]
    exact ambiguous_of_unfoldedLines (u.isEol_eolNear line) h
  | several _ hBlock hSeveral =>
    obtain ⟨first, middle, last, _, _, _, _, hReplaced, _, _, _, hBlockEol, hLines⟩ :=
      ofComment_of_several hCut hBlock hSeveral
    rw [hBlockEol] at hEol
    rw [hLines, List.forall_mem_cons, List.forall_mem_append, List.forall_mem_singleton] at h
    rw [hReplaced, List.forall_mem_cons, List.forall_mem_append, List.forall_mem_singleton]
    obtain ⟨hFirst, hMiddle, hLast⟩ := h
    refine ⟨hFirst, hMiddle, ?_⟩
    split at hLast
    next => exact (ambiguous_append_isEol_iff hEol).mp hLast
    next => exact hLast
  | bare _ hBlock =>
    obtain ⟨_, _, rfl⟩ := blank_eq_ok_iff.mp hBlock
    simp

theorem keeps_of_merge (hCut : Line.AreCut u.lines)
    (hMerge : merge x false u cls extraction rules = .ok (some p)) : p.Keeps u.lines := by
  obtain ⟨annotations, b, _, hLocate, hBlock⟩ := merge_eq_ok_some_iff.mp hMerge
  obtain ⟨_, _, rfl⟩ := mergeBlock_eq_some_iff.mp hBlock
  obtain ⟨⟨above, below, hAbove, hUnit⟩, _, _, _, hFramed⟩ := framed_of_locate hCut hLocate
  constructor
  · exact (spans_of_locate hLocate).inside
  · intro l hl
    exact getLast?_of_mem_foldl_insert hFramed hl
  · intro h
    have hReplaced : (u.lines.drop b.start).take b.replaced.length = b.replaced := by
      rw [hUnit, ← hAbove, List.append_assoc, List.drop_left, List.take_left]
    rw [hReplaced]
    apply ambiguous_of_locate hCut hLocate
    intro l hl
    exact h l (subset_foldl_insert b annotations hl)

theorem encoding_of_keeping {bytes out : ByteArray} {updated : SourceUnit} {ps : List Patch}
    (hMerged : ∀ p ∈ ps, ∃ x cls extraction rules,
      merge x false (.ofBytes bytes) cls extraction rules = .ok (some p))
    (hApplied : Patch.applyAll (.ofBytes bytes) ps = .ok updated)
    (hBytes : updated.toBytes = .ok out) : (SourceUnit.ofBytes out).encoding = updated.encoding := by
  have hRead : (SourceUnit.ofBytes bytes).IsRead := .inr ⟨bytes, rfl⟩
  apply SourceUnit.encoding_of_toBytes hBytes
  intro hLatin hAmbiguous
  rw [Patch.encoding_of_applyAll hApplied] at hLatin
  apply SourceUnit.not_ambiguous_of_latin1 hLatin
  apply Patch.ambiguous_of_applyAll hRead.areCut _ hApplied hAmbiguous
  intro p hp
  obtain ⟨x, cls, extraction, rules, hMerge⟩ := hMerged p hp
  exact keeps_of_merge hRead.areCut hMerge

/-- What merges that take nothing out have written is read again, in the same encoding. -/
theorem ofBytes_of_keeping {bytes out : ByteArray} {updated : SourceUnit} {ps : List Patch}
    (hMerged : ∀ p ∈ ps, ∃ x cls extraction rules,
      merge x false (.ofBytes bytes) cls extraction rules = .ok (some p))
    (hApplied : Patch.applyAll (.ofBytes bytes) ps = .ok updated)
    (hBytes : updated.toBytes = .ok out) :
    (SourceUnit.ofBytes out).encoding = (SourceUnit.ofBytes bytes).encoding ∧
      (SourceUnit.ofBytes out).text = updated.text ∧
      (bytes.utf8Decode? = none → out.utf8Decode? = none) := by
  have hEncoding := encoding_of_keeping hMerged hApplied hBytes
  have hSame := hEncoding.trans (Patch.encoding_of_applyAll hApplied)
  refine ⟨hSame, SourceUnit.text_of_toBytes hBytes hEncoding, ?_⟩
  intro hLatin
  rw [← SourceUnit.encoding_ofBytes_eq_latin1_iff] at hLatin ⊢
  exact hSame.trans hLatin

/-- Two classes, of which one has a comment on one line with a byte that is no UTF-8. -/
def accentBytes : ByteArray :=
  ⟨#[0x2F, 0x2A, 0x2A, 0x20, 0xE9, 0x20, 0x2A, 0x2F, 0x0A] ++ "class A {}\nclass B {}\n".toByteArray.data⟩

def accentClass (name : String) (line : Nat) (comment : Option DocComment) : ClassNode :=
  ⟨name, some "Controller", line, comment, [⟨"uses", some (.list [.bare (.string "Post")])⟩]⟩

def accentPatches : List Patch :=
  [⟨0, 1, ["/** é \n".toList, " * @property Post $Post\n".toList, " */\n".toList]⟩,
    ⟨2, 0, ["/**\n".toList, " * @property Post $Post\n".toList, " */\n".toList]⟩]

theorem ofBytes_of_keeping_accents :
    ∃ updated out, Patch.applyAll (.ofBytes accentBytes) accentPatches = .ok updated ∧
      updated.toBytes = .ok out ∧ (SourceUnit.ofBytes accentBytes).encoding = .latin1 ∧
      (SourceUnit.ofBytes out).encoding = .latin1 ∧ (SourceUnit.ofBytes out).text = updated.text := by
  have hLatin : (SourceUnit.ofBytes accentBytes).encoding = .latin1 := by decide +kernel
  have hFirst : merge (.ofNames ["uses"]) false (.ofBytes accentBytes)
      (accentClass "A" 2 (some ⟨1, 1⟩)) postExtraction usesRules = .ok (some accentPatches[0]) := by
    decide +kernel
  have hSecond : merge (.ofNames ["uses"]) false (.ofBytes accentBytes) (accentClass "B" 3 none)
      postExtraction usesRules = .ok (some accentPatches[1]) := by decide +kernel
  have hMerged : ∀ p ∈ accentPatches, ∃ x cls extraction rules,
      merge x false (.ofBytes accentBytes) cls extraction rules = .ok (some p) := by
    rw [accentPatches, List.forall_mem_cons, List.forall_mem_singleton]
    exact ⟨⟨_, _, _, _, hFirst⟩, _, _, _, _, hSecond⟩
  have hApplied : Patch.applyAll (.ofBytes accentBytes) accentPatches =
      .ok ⟨["/** é \n".toList, " * @property Post $Post\n".toList, " */\n".toList,
        "class A {}\n".toList, "/**\n".toList, " * @property Post $Post\n".toList, " */\n".toList,
        "class B {}\n".toList], .latin1⟩ := by decide +kernel
  obtain ⟨hEncoding, hText, _⟩ := ofBytes_of_keeping hMerged hApplied rfl
  exact ⟨_, _, hApplied, rfl, hLatin, hEncoding.trans hLatin, hText⟩

end Merge

end DocWiring
