import DocWiring.Proofs.DocBlock.Spelling
import DocWiring.Proofs.Source.Lines

/-! # Reading back a written annotation

The line that writes an annotation of legible names is one whole line, and the annotation is among
those that are found in it.
-/

namespace DocWiring

namespace Annotation

/-- The type is a text without white space and the symbol a word, so that a line of the annotation
says both. -/
structure Legible (a : Annotation) : Prop where
  typed : a.typeName.toList ≠ []
  solid : ∀ c ∈ a.typeName.toList, Text.isBlank c = false
  named : a.symbol.toList ≠ []
  word : ∀ c ∈ a.symbol.toList, Text.isWord c = true

theorem legible_iff {a : Annotation} : a.Legible ↔ (a.typeName.toList ≠ [] ∧
    a.typeName.toList.any Text.isBlank = false) ∧ a.symbol.toList ≠ [] ∧
      a.symbol.toList.all Text.isWord = true := by
  simp only [List.any_eq_false, List.all_eq_true, Bool.not_eq_true]
  exact ⟨fun h => ⟨⟨h.typed, h.solid⟩, h.named, h.word⟩, fun h => ⟨h.1.1, h.1.2, h.2.1, h.2.2⟩⟩

instance (a : Annotation) : Decidable a.Legible :=
  decidable_of_iff' _ legible_iff

structure Wordy (a : Annotation) : Prop where
  typed : a.typeName.toList ≠ []
  worded : ∀ c ∈ a.typeName.toList, Text.isWord c = true
  named : a.symbol.toList ≠ []
  word : ∀ c ∈ a.symbol.toList, Text.isWord c = true

theorem wordy_iff {a : Annotation} : a.Wordy ↔ (a.typeName.toList ≠ [] ∧
    a.typeName.toList.all Text.isWord = true) ∧ a.symbol.toList ≠ [] ∧
      a.symbol.toList.all Text.isWord = true := by
  rw [List.all_eq_true, List.all_eq_true]
  exact ⟨fun h => ⟨⟨h.typed, h.worded⟩, h.named, h.word⟩, fun h => ⟨h.1.1, h.1.2, h.2.1, h.2.2⟩⟩

instance (a : Annotation) : Decidable a.Wordy :=
  decidable_of_iff' _ wordy_iff

theorem Wordy.legible {a : Annotation} (h : a.Wordy) : a.Legible :=
  ⟨h.typed, fun c hc => Text.isBlank_of_isWord (h.worded c hc), h.named, h.word⟩

theorem scan_append {t : List Char} (hStar : '*' ∉ t) (r : List Char) :
    scan 0 (t ++ r) = scan 0 r := by
  induction t with
  | nil => rfl
  | cons c s ih =>
    obtain ⟨hc, hs⟩ := List.ne_and_not_mem_of_not_mem_cons hStar
    have hNone : readAt? (c :: (s ++ r)) = none := by
      unfold readAt?
      split
      next h => exact absurd (List.cons.inj h).1.symm hc
      next => rfl
    rw [List.cons_append, scan, hNone]
    exact ih hs

/-- What a line says from its star on. -/
def saying (a : Annotation) : List Char :=
  tag ++ ' ' :: (a.typeName.toList ++ ' ' :: '$' :: a.symbol.toList)

theorem line_eq (a : Annotation) (indent eol : List Char) :
    a.line indent eol = indent ++ ' ' :: '*' :: ' ' :: (a.saying ++ eol) := by
  simp [line, saying]

/-- The pieces that a line is written with. -/
def Legible.spelling {a : Annotation} (h : a.Legible) : Spelling where
  margin := [' ']
  mark := tag
  typeGap := [' ']
  typeName := a.typeName.toList
  symbolGap := [' ']
  symbol := a.symbol.toList
  margin_blank := List.forall_mem_singleton.mpr (by decide)
  mark_tag := by decide
  typeGap_gap := ⟨by simp, List.forall_mem_singleton.mpr (by decide)⟩
  typed := h.typed
  solid := h.solid
  symbolGap_gap := ⟨by simp, List.forall_mem_singleton.mpr (by decide)⟩
  named := h.named
  word := h.word

theorem Legible.text_spelling {a : Annotation} (h : a.Legible) :
    h.spelling.text = '*' :: ' ' :: a.saying := by
  simp [spelling, Spelling.text, saying]

theorem readAt?_saying {a : Annotation} (h : a.Legible) :
    readAt? ('*' :: ' ' :: a.saying) = some ((a.typeName.toList, a.symbol.toList), []) := by
  have hEnds : EndsSymbol [] := by simp [EndsSymbol]
  have hRead := h.spelling.readAt?_text_append hEnds
  rwa [List.append_nil, h.text_spelling] at hRead

theorem mem_findAll_saying {a : Annotation} (h : a.Legible) {indent : List Char}
    (hIndent : '*' ∉ indent) :
    (a.typeName.toList, a.symbol.toList) ∈
      findAll (indent ++ ' ' :: '*' :: ' ' :: a.saying) := by
  have hFree : '*' ∉ indent ++ [' '] := by simpa using hIndent
  have hScan := scan_append hFree ('*' :: ' ' :: a.saying)
  rw [List.append_assoc, List.singleton_append] at hScan
  rw [findAll, hScan, scan, readAt?_saying h]
  exact List.mem_cons_self

theorem agrees_self (a : Annotation) : a.agrees (a.typeName.toList, a.symbol.toList) = true := by
  simp [agrees, sameLetters]

theorem Legible.not_mem_saying {a : Annotation} (h : a.Legible) : '\n' ∉ a.saying := by
  have hType : '\n' ∉ a.typeName.toList := fun hMem => by
    simpa [Text.isBlank_feed] using h.solid _ hMem
  have hSymbol : '\n' ∉ a.symbol.toList := fun hMem => by
    simpa [Text.isWord_feed] using h.word _ hMem
  simp [saying, tag, hType, hSymbol]

theorem Legible.getLast?_saying {a : Annotation} (h : a.Legible) :
    a.saying.getLast? ≠ some '\r' := by
  intro hLast
  have hSymbol : a.symbol.toList.getLast? = some '\r' := by
    rw [saying, List.getLast?_append_of_ne_nil _ (by simp), List.getLast?_cons_of_ne_nil (by simp),
      List.getLast?_append_of_ne_nil _ (by simp), List.getLast?_cons_of_ne_nil (by simp),
      List.getLast?_cons_of_ne_nil h.named] at hLast
    exact hLast
  simpa [Text.isWord_return] using h.word _ (List.mem_of_getLast? hSymbol)

/-- The content of the line is what it says, so nothing is lost at its end. -/
theorem content_line {a : Annotation} (h : a.Legible) {indent eol : List Char}
    (hEol : Line.IsEol eol) :
    Line.content (a.line indent eol) = indent ++ ' ' :: '*' :: ' ' :: a.saying := by
  have hReturn : (indent ++ ' ' :: '*' :: ' ' :: a.saying).getLast? ≠ some '\r' := by
    have hNil : a.saying ≠ [] := by simp [saying, tag]
    rw [List.getLast?_append_of_ne_nil _ (by simp), List.getLast?_cons_of_ne_nil (by simp),
      List.getLast?_cons_of_ne_nil (by simp), List.getLast?_cons_of_ne_nil hNil]
    exact h.getLast?_saying
  rw [line_eq, ← Line.content_append_isEol hEol hReturn]
  simp

theorem whole_line {a : Annotation} (h : '\n' ∉ a.saying) {indent eol : List Char}
    (hIndent : '\n' ∉ indent) (hEol : Line.IsEol eol) : Line.Whole (a.line indent eol) := by
  have hFree : '\n' ∉ indent ++ ' ' :: '*' :: ' ' :: a.saying := by
    simp [hIndent, h]
  have hLine : a.line indent eol = (indent ++ ' ' :: '*' :: ' ' :: a.saying) ++ eol := by
    simp [line_eq]
  rw [hLine]
  exact hEol.whole.append hFree

end Annotation

end DocWiring
