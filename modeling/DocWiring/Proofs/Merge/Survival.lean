import DocWiring.Php.File
import DocWiring.Proofs.Merge.Clearing
import DocWiring.Proofs.Merge.Completeness

/-! # What survives clearing

Annotations are found whatever the case of their tag, but clearing looks for a tag in lower case.  It
leaves exactly the annotations that no such tag reaches: one reaches everything on its line, and on the
opening line what stands further right.  The tag of what is left has a capital letter.
-/

namespace DocWiring

namespace Annotation

theorem EndsSymbol.of_prefix {rest r : List Char} (h : EndsSymbol rest) (hr : r <+: rest) :
    EndsSymbol r := by
  obtain ⟨t, rfl⟩ := hr
  cases r with
  | nil => simp [EndsSymbol]
  | cons c r => exact h

namespace Spelling

variable {s : Spelling} {t : List Char}

theorem trimEnd_append (s : Spelling) (before y : List Char) :
    Text.trimEnd (before ++ s.text ++ y) = before ++ s.text ++ Text.trimEnd y := by
  obtain ⟨init, c, hSymbol⟩ := (List.eq_nil_or_concat s.symbol).resolve_left s.named
  rw [List.concat_eq_append] at hSymbol
  have hc : Text.isBlank c = false := Text.isBlank_of_isWord (s.word c (by simp [hSymbol]))
  obtain ⟨front, hFront⟩ : ∃ front, before ++ s.text = front ++ [c] :=
    ⟨before ++ '*' :: (s.margin ++ s.mark ++ s.typeGap ++ s.typeName ++ s.symbolGap ++ '$' :: init),
      by simp [text, hSymbol]⟩
  rw [hFront, List.append_assoc, List.singleton_append, Text.trimEnd_append hc, List.append_assoc,
    List.singleton_append]

/-- The text spells this somewhere, to the end of the symbol. -/
def StandsIn (s : Spelling) (t : List Char) : Prop :=
  ∃ before rest, t = before ++ s.text ++ rest ∧ EndsSymbol rest

/-- The text spells this before any tag in lower case. -/
def StandsFirst (s : Spelling) (t : List Char) : Prop :=
  ∃ before rest, t = before ++ s.text ++ rest ∧ EndsSymbol rest ∧ ¬ tag <:+: before ++ s.text

theorem StandsFirst.standsIn (h : s.StandsFirst t) : s.StandsIn t := by
  obtain ⟨before, rest, ht, hEnds, _⟩ := h
  exact ⟨before, rest, ht, hEnds⟩

theorem StandsIn.standsFirst (h : s.StandsIn t) (hNone : ¬ tag <:+: t) : s.StandsFirst t := by
  obtain ⟨before, rest, rfl, hEnds⟩ := h
  exact ⟨before, rest, rfl, hEnds, fun hTag => hNone (hTag.trans (List.prefix_append _ rest).isInfix)⟩

theorem StandsFirst.mark_ne (h : s.StandsFirst t) : s.mark ≠ tag := by
  obtain ⟨before, _, _, _, hNone⟩ := h
  intro hMark
  refine hNone ⟨before ++ '*' :: s.margin, s.typeGap ++ s.typeName ++ s.symbolGap ++ '$' :: s.symbol, ?_⟩
  simp [text, hMark]

theorem exists_standsIn_iff : (∃ s : Spelling, s.StandsIn t) ↔ findAll t ≠ [] := by
  constructor
  · rintro ⟨s, before, rest, rfl, hEnds⟩
    rw [findAll, List.append_assoc]
    induction before with
    | nil =>
      have hRead := s.readAt?_text_append hEnds
      rw [s.text_append] at hRead ⊢
      rw [List.nil_append, scan, hRead]
      simp
    | cons c before ih =>
      rw [List.cons_append, scan]
      split
      next => simp
      next => exact ih
  · intro h
    obtain ⟨found, hFound⟩ := List.exists_mem_of_ne_nil _ h
    obtain ⟨before, r, rest, rfl, hRead⟩ := exists_of_mem_scan hFound
    obtain ⟨s, rfl, _, hEnds⟩ := exists_spelling_of_readAt? hRead
    exact ⟨s, before, rest, (List.append_assoc _ _ _).symm, hEnds⟩

end Spelling

theorem spelledIn_iff {a : Annotation} {t : List Char} : a.SpelledIn t ↔ ∃ s : Spelling, s.StandsIn t ∧
    sameLetters s.typeName a.typeName.toList = true ∧ sameLetters s.symbol a.symbol.toList = true := by
  constructor
  · rintro ⟨before, s, rest, ht, hEnds, hSame⟩
    exact ⟨s, ⟨before, rest, ht, hEnds⟩, hSame⟩
  · rintro ⟨s, ⟨before, rest, ht, hEnds⟩, hSame⟩
    exact ⟨before, s, rest, ht, hEnds, hSame⟩

/-- A place of the tag that comes after no earlier one starts after the end of the annotation: no tag
starts inside a spelling and goes on behind it. -/
theorem Spelling.prefix_of_cut {s : Spelling} {before rest kept after : List Char}
    (h : before ++ s.text ++ rest = kept ++ tag ++ after) (hNone : ¬ tag <:+: before ++ s.text) :
    before ++ s.text <+: kept := by
  obtain ⟨front, hFront⟩ : ∃ front, before ++ s.text = front ++ '$' :: s.symbol :=
    ⟨before ++ '*' :: (s.margin ++ s.mark ++ s.typeGap ++ s.typeName ++ s.symbolGap), by simp [text]⟩
  rw [hFront] at h hNone ⊢
  have hSymbol : '@' ∉ s.symbol := fun hMem => absurd (s.word '@' hMem) (by decide +kernel)
  have hBoth : (front ++ ['$']) ++ (s.symbol ++ rest) = kept ++ (tag ++ after) := by
    simpa using h
  rcases List.append_eq_append_iff.mp hBoth with ⟨inner, hKept, hTail⟩ | ⟨inner, hDollar, hTail⟩
  · -- The tag starts after the dollar, so it starts after the symbol.
    have hTag : inner ++ '@' :: (tag.tail ++ after) = s.symbol ++ rest := hTail.symm
    obtain ⟨t, rfl⟩ := Text.prefix_of_append_cons hSymbol hTag
    exact ⟨t, by simp [hKept]⟩
  · -- The tag starts before the dollar and lacks it, so it ends before it.
    rcases List.eq_nil_or_concat inner with rfl | ⟨init, c, rfl⟩
    · have hTag : [] ++ '@' :: (tag.tail ++ after) = s.symbol ++ rest := hTail
      obtain ⟨t, ht⟩ := Text.prefix_of_append_cons hSymbol hTag
      obtain ⟨hNil, _⟩ := List.append_eq_nil_iff.mp ht
      exact ⟨[], by simpa [hNil] using hDollar⟩
    · rw [List.concat_eq_append, ← List.append_assoc] at hDollar
      obtain ⟨rfl, hc⟩ := List.append_inj' hDollar rfl
      obtain rfl : '$' = c := by simpa using hc
      have hTag : init ++ '$' :: (s.symbol ++ rest) = tag ++ after := by simpa using hTail.symm
      obtain ⟨t, rfl⟩ := Text.prefix_of_append_cons (by decide) hTag
      exact absurd ⟨kept, t ++ '$' :: s.symbol, by simp⟩ hNone

end Annotation

namespace DocBlock

open Annotation

theorem standsIn_openingAfter_iff {l : Line} (hWhole : Line.Whole l) {s : Spelling} :
    s.StandsIn (openingAfter l).content ↔ s.StandsFirst l.content := by
  unfold openingAfter
  split
  next hTagged =>
    obtain ⟨kept, after, hCut, _, hKept, _⟩ := exists_cut_of_isTagged hWhole hTagged
    have hContent := Text.eq_of_cutFirst? hCut
    have hNone := Text.not_infix_of_cutFirst? (by decide) hCut
    constructor
    · rintro ⟨before, rest, hText, hEnds⟩
      obtain ⟨lost, hLost, hAfter⟩ := exists_lost_of_clearedOpening hWhole hTagged
      refine ⟨before, rest ++ lost, by rw [hLost, hText, List.append_assoc _ rest],
        hEnds.append hAfter, fun hTag => ?_⟩
      have hInitial := Text.trimEnd_initial kept
      rw [← hKept, hText] at hInitial
      exact hNone (hTag.trans ((List.prefix_append _ rest).trans hInitial).isInfix)
    · rintro ⟨before, rest, hText, hEnds, hFirst⟩
      rw [hContent] at hText
      obtain ⟨y, rfl⟩ := Spelling.prefix_of_cut hText.symm hFirst
      rw [List.append_assoc _ tag, List.append_assoc _ y] at hText
      obtain rfl := List.append_cancel_left hText
      exact ⟨before, Text.trimEnd y, hKept.trans (s.trimEnd_append before y),
        hEnds.of_prefix ((Text.trimEnd_initial y).trans (List.prefix_append y _))⟩
  next hTagged =>
    have hNone : ¬ tag <:+: l.content := mt isTagged_iff.mpr hTagged
    exact ⟨fun h => h.standsFirst hNone, fun h => h.standsIn⟩

theorem standsIn_closingAfter_iff {b : DocBlock} {l : Line} (hWhole : Line.Whole l)
    (hStar : '*' ∉ b.indent) {s : Spelling} :
    s.StandsIn (b.closingAfter l).content ↔ s.StandsIn l.content ∧ ¬ Tagged l := by
  unfold closingAfter
  split
  next hTagged =>
    have hNone : ¬ s.StandsIn (b.clearedClosing l).content := fun h => by
      refine Spelling.exists_standsIn_iff.mp ⟨s, h⟩ ?_
      rw [content_clearedClosing b hWhole, findAll_closingLine hStar]
    exact iff_of_false hNone fun h => h.2 (isTagged_iff.mp hTagged)
  next hTagged => exact (and_iff_left (mt isTagged_iff.mpr hTagged)).symm

/-- A line of the block spells this where clearing leaves it: no tag in lower case stands on the line, or
none before its end on the opening line. -/
def Survives (b : DocBlock) (s : Spelling) : Prop :=
  ∃ l ∈ b.lines, s.StandsFirst l.content ∧ (b.lines.head? = some l ∨ ¬ Tagged l)

theorem exists_standsIn_clear_iff {b : DocBlock} {first last : Line} {middle : List Line}
    (h : Framed b first middle last) {s : Spelling} :
    (∃ l ∈ b.clear.lines, s.StandsIn l.content) ↔ b.Survives s := by
  have hFirst : Line.Whole first := h.whole first (by simp [h.lines])
  have hLast : Line.Whole last := h.whole last (by simp [h.lines])
  have hStar : '*' ∉ b.indent := h.opens.not_mem (by decide)
  have hHead : b.lines.head? = some first := by rw [h.lines, List.head?_cons]
  rw [clear_eq h.lines]
  constructor
  · rintro ⟨l, hl, hStands⟩
    rcases List.mem_cons.mp hl with rfl | hl
    · exact ⟨first, by simp [h.lines], (standsIn_openingAfter_iff hFirst).mp hStands, .inl hHead⟩
    rcases List.mem_append.mp hl with hl | hl
    · obtain ⟨hMem, hBare⟩ := List.mem_filter.mp hl
      have hNot : ¬ Tagged l := by simpa [← isTagged_iff] using hBare
      exact ⟨l, by simp [h.lines, hMem], hStands.standsFirst hNot, .inr hNot⟩
    · obtain rfl := List.mem_singleton.mp hl
      obtain ⟨hSame, hNot⟩ := (standsIn_closingAfter_iff hLast hStar).mp hStands
      exact ⟨last, by simp [h.lines], hSame.standsFirst hNot, .inr hNot⟩
  · rintro ⟨l, hl, hStands, hReach⟩
    by_cases hSame : first = l
    · subst hSame
      exact ⟨_, List.mem_cons_self, (standsIn_openingAfter_iff hFirst).mpr hStands⟩
    have hNot : ¬ Tagged l := hReach.resolve_left fun hIs => hSame (Option.some.inj (hHead.symm.trans hIs))
    rw [h.lines] at hl
    rcases List.mem_append.mp ((List.mem_cons.mp hl).resolve_left fun hIs => hSame hIs.symm) with hl | hl
    · have hKept : l ∈ middle.filter fun l => !isTagged l :=
        List.mem_filter.mpr ⟨hl, by simpa [← isTagged_iff] using hNot⟩
      exact ⟨l, by simp [hKept], hStands.standsIn⟩
    · obtain rfl := List.mem_singleton.mp hl
      exact ⟨_, by simp, (standsIn_closingAfter_iff hLast hStar).mpr ⟨hStands.standsIn, hNot⟩⟩

theorem exists_contains_iff {b : DocBlock} :
    (∃ a, b.contains a = true) ↔ ∃ l ∈ b.lines, findAll (Line.content l) ≠ [] := by
  constructor
  · rintro ⟨a, hMet⟩
    obtain ⟨l, hl, found, hFound, _⟩ := contains_iff.mp hMet
    exact ⟨l, hl, List.ne_nil_of_mem hFound⟩
  · rintro ⟨l, hl, hSome⟩
    obtain ⟨⟨typeName, symbol⟩, hFound⟩ := List.exists_mem_of_ne_nil _ hSome
    refine ⟨⟨.ofList typeName, .ofList symbol⟩, contains_iff.mpr ⟨l, hl, _, hFound, ?_⟩⟩
    simp [agrees, sameLetters]

/-- A cleared block has the annotations that survive, and all of these have a capital letter in their
tag. -/
theorem contains_clear_iff {u : SourceUnit} {cls : ClassNode} {b : DocBlock} (hRead : u.IsRead)
    (hLocate : locate u cls = .ok b) :
    ((∃ a, b.clear.contains a = true) ↔ ∃ s, b.Survives s) ∧
    (∀ a : Annotation, a.typeName.toList.head? ≠ some '$' → (b.clear.contains a = true ↔
      ∃ s, b.Survives s ∧ sameLetters s.typeName a.typeName.toList = true ∧
        sameLetters s.symbol a.symbol.toList = true)) ∧
    ∀ s, b.Survives s → s.mark ≠ tag := by
  obtain ⟨_, _, _, _, hFramed⟩ := framed_of_locate hRead.areCut hLocate
  refine ⟨?_, ?_, ?_⟩
  · rw [exists_contains_iff]
    constructor
    · rintro ⟨l, hl, hSome⟩
      obtain ⟨s, hStands⟩ := Spelling.exists_standsIn_iff.mpr hSome
      exact ⟨s, (exists_standsIn_clear_iff hFramed).mp ⟨l, hl, hStands⟩⟩
    · rintro ⟨s, hSurvives⟩
      obtain ⟨l, hl, hStands⟩ := (exists_standsIn_clear_iff hFramed).mpr hSurvives
      exact ⟨l, hl, Spelling.exists_standsIn_iff.mp ⟨s, hStands⟩⟩
  · intro a hDollar
    rw [contains_iff]
    simp only [exists_agrees_iff_spelledIn hDollar, spelledIn_iff]
    constructor
    · rintro ⟨l, hl, s, hStands, hSame⟩
      exact ⟨s, (exists_standsIn_clear_iff hFramed).mp ⟨l, hl, hStands⟩, hSame⟩
    · rintro ⟨s, hSurvives, hSame⟩
      obtain ⟨l, hl, hStands⟩ := (exists_standsIn_clear_iff hFramed).mpr hSurvives
      exact ⟨l, hl, s, hStands, hSame⟩
  · rintro s ⟨l, _, hStands, _⟩
    exact hStands.mark_ne

/-- Annotations before, between and after tags in lower case, on the opening line and below. -/
def mixedLines : List Line :=
  ["/** @Property Post $post  @property Tag $tag * @Property Old $old\n".toList,
    " * @PROPERTY User $user\n".toList, " * @Property Group $group and @property\n".toList,
    " */\n".toList]

def mixedUnit : SourceUnit :=
  .ofText ("<?php\n".toList ++ mixedLines.flatten ++ "class A {}\n".toList)

def mixedClass : ClassNode :=
  ⟨"A", some "Shell", 6, some ⟨2, 5⟩, []⟩

def mixedBlock : DocBlock :=
  ⟨mixedLines, mixedLines, 1, [], ['\n']⟩

theorem contains_clear_iff_mixed :
    mixedUnit.IsRead ∧ locate mixedUnit mixedClass = .ok mixedBlock ∧
    (∃ s, mixedBlock.Survives s ∧ sameLetters s.typeName "Post".toList = true ∧
      sameLetters s.symbol "post".toList = true) ∧
    (¬ ∃ s, mixedBlock.Survives s ∧ sameLetters s.typeName "Group".toList = true ∧
      sameLetters s.symbol "group".toList = true) ∧
    ∃ s, mixedBlock.Survives s ∧ s.mark ≠ tag := by
  have hRead : mixedUnit.IsRead := .inl ⟨_, rfl⟩
  have hLocate : locate mixedUnit mixedClass = .ok mixedBlock := by decide +kernel
  obtain ⟨hSome, hAll, hMark⟩ := contains_clear_iff hRead hLocate
  have hPost : mixedBlock.clear.contains ⟨"Post", "post"⟩ = true := by decide +kernel
  have hGroup : ¬ mixedBlock.clear.contains ⟨"Group", "group"⟩ = true := by decide +kernel
  obtain ⟨s, hSurvives⟩ := hSome.mp ⟨_, hPost⟩
  exact ⟨hRead, hLocate, (hAll ⟨"Post", "post"⟩ (by decide)).mp hPost,
    mt (hAll ⟨"Group", "group"⟩ (by decide)).mpr hGroup, s, hSurvives, hMark s hSurvives⟩

end DocBlock

namespace Merge

open DocBlock

def capitalUnit : SourceUnit :=
  .ofText "<?php\n/**\n * @Property Old $Old\n */\nclass A extends Shell \x7b var $uses = ['Post']; \x7d\n".toList

def capitalClass : ClassNode :=
  ⟨"A", some "Shell", 5, some ⟨2, 4⟩, [⟨"uses", some (.list [.bare (.string "Post")])⟩]⟩

/-- An annotation that a merge would not add again, as it is found, outlives a merge that clears. -/
theorem contains_clear_capital :
    RuleTable.builtin.fault? = none ∧ Php.classes ⟨"a.php"⟩ capitalUnit = .ok [capitalClass] ∧
    ∃ b, locate capitalUnit capitalClass = .ok b ∧ b.taggedCount = 0 ∧
      b.clear.contains ⟨"Old", "Old"⟩ = true ∧
      merge (.ofNames ["uses"]) true capitalUnit capitalClass postExtraction usesRules =
        .ok (some ⟨1, 3, ["/**\n".toList, " * @Property Old $Old\n".toList,
          " * @property Post $Post\n".toList, " */\n".toList]⟩) := by
  refine ⟨by decide +kernel, by decide +kernel,
    ⟨["/**\n".toList, " * @Property Old $Old\n".toList, " */\n".toList],
      ["/**\n".toList, " * @Property Old $Old\n".toList, " */\n".toList], 1, [], ['\n']⟩, ?_, ?_, ?_, ?_⟩
  all_goals decide +kernel

end Merge

end DocWiring
