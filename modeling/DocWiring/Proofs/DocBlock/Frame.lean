import DocWiring.DocBlock.Block
import DocWiring.Proofs.DocBlock.Annotation
import DocWiring.Proofs.Text.Search

/-! # The frame of a doc block

A block is framed by its opening and its closing line.  Every block that is found in a file is
framed, adding and clearing annotations keep the frame, and a framed block that stands in a file is
found there again.
-/

namespace DocWiring

namespace Line

theorem isIndent_iff {c : Char} : isIndent c = true ↔ c = ' ' ∨ c = '\t' := by
  simp [isIndent]

theorem content_cons {c : Char} (hFeed : c ≠ '\n') (hReturn : c ≠ '\r') (r : List Char) :
    content (c :: r) = c :: content r := by
  have hSplit : splitEol (c :: r) = (c :: (splitEol r).1, (splitEol r).2) := by
    rw [splitEol]
    · intro h
      exact absurd h hFeed
    · intro h
      exact absurd h hReturn
  simp [content, hSplit]

theorem indent_initial (l : Line) : l.indent <+: l.content :=
  List.takeWhile_prefix _

theorem isIndent_of_mem_indent {l : Line} {c : Char} (h : c ∈ l.indent) : isIndent c = true :=
  List.mem_takeWhile_imp h

end Line

namespace DocBlock

/-- A whole line of blanks, the opening sign, and whatever follows it. -/
def Opens (indent : List Char) (l : Line) : Prop :=
  (∀ c ∈ indent, Line.isIndent c = true) ∧ ∃ rest, l = indent ++ opening ++ rest

/-- A line with nothing but white space after its last closing sign. -/
def Closes (l : Line) : Prop :=
  ∃ head tail, Text.cutLast? closing l.content = some (head, tail) ∧ Text.isBlankText tail = true

structure Framed (b : DocBlock) (first : Line) (middle : List Line) (last : Line) : Prop where
  lines : b.lines = first :: (middle ++ [last])
  whole : ∀ l ∈ b.lines, Line.Whole l
  opens : Opens b.indent first
  eol : b.eol = first.eol
  closes : Closes last

theorem Opens.content {indent : List Char} {l : Line} (h : Opens indent l) :
    ∃ rest, l.content = indent ++ opening ++ rest := by
  obtain ⟨_, rest, rfl⟩ := h
  refine ⟨Line.content rest, ?_⟩
  rw [List.append_assoc, Line.content_append indent (by simp [opening]) (by simp [opening]),
    opening, List.cons_append, List.cons_append, List.cons_append, List.nil_append,
    Line.content_cons (by decide) (by decide), Line.content_cons (by decide) (by decide),
    Line.content_cons (by decide) (by decide), List.append_assoc]
  rfl

theorem Opens.indent_eq {indent : List Char} {l : Line} (h : Opens indent l) :
    l.indent = indent := by
  obtain ⟨rest, hContent⟩ := h.content
  rw [Line.indent, hContent, List.append_assoc, List.takeWhile_append_of_pos h.1]
  simp [opening, Line.isIndent]

theorem Opens.not_mem {indent : List Char} {l : Line} (h : Opens indent l) {c : Char}
    (hc : Line.isIndent c = false) : c ∉ indent := by
  intro hMem
  rw [h.1 c hMem] at hc
  cases hc

theorem opens_of_isPrefixOf {l : Line}
    (h : opening.isPrefixOf (l.content.drop l.indent.length) = true) : Opens l.indent l := by
  refine ⟨fun c hc => Line.isIndent_of_mem_indent hc, ?_⟩
  obtain ⟨rest, hRest⟩ := List.isPrefixOf_iff_prefix.mp h
  obtain ⟨t, ht⟩ := Line.indent_initial l
  rw [← ht, List.drop_left] at hRest
  refine ⟨rest ++ l.eol, ?_⟩
  rw [← List.append_assoc, List.append_assoc l.indent, hRest, ht, Line.content_append_eol]

theorem Opens.isPrefixOf {indent : List Char} {l : Line} (h : Opens indent l) :
    opening.isPrefixOf (l.content.drop l.indent.length) = true := by
  obtain ⟨rest, hContent⟩ := h.content
  rw [h.indent_eq, hContent, List.append_assoc, List.drop_left, List.isPrefixOf_iff_prefix]
  exact ⟨rest, rfl⟩

theorem not_mem_of_isBlankText {t : List Char} (h : Text.isBlankText t = true) {c : Char}
    (hc : Text.isBlank c = false) : c ∉ t := by
  intro hMem
  rw [List.all_eq_true.mp h c hMem] at hc
  cases hc

theorem cutLast?_closing (head : List Char) {tail : List Char}
    (h : Text.isBlankText tail = true) :
    Text.cutLast? closing (head ++ closing ++ tail) = some (head, tail) := by
  have hMark : closing = '*' :: ['/'] := rfl
  apply Text.cutLast?_append hMark
  apply Text.not_infix_of_not_mem (List.mem_cons_self : '*' ∈ closing)
  simpa using not_mem_of_isBlankText h (by decide)

theorem closes_of_content {l : Line} {head tail : List Char}
    (hContent : l.content = head ++ closing ++ tail) (hTail : Text.isBlankText tail = true) :
    Closes l :=
  ⟨head, tail, hContent ▸ cutLast?_closing head hTail, hTail⟩

/-- A closing sign with white space after it closes a line, whatever stands before. -/
theorem closes_append (head : List Char) {tail eol : List Char}
    (hTail : Text.isBlankText tail = true) (hEol : Line.IsEol eol) :
    Closes (head ++ closing ++ tail ++ eol) := by
  obtain ⟨rest, hContent, hRest⟩ : ∃ rest, Line.content (head ++ closing ++ tail ++ eol) =
      head ++ closing ++ rest ∧ rest <+: tail := by
    by_cases hNil : tail = []
    · refine ⟨[], ?_, List.nil_prefix⟩
      rw [hNil, List.append_nil, Line.content_append_isEol hEol (by simp [closing])]
    · refine ⟨Line.content (tail ++ eol), ?_, Line.content_append_isEol_initial tail hEol⟩
      have hFeed : tail ++ eol ≠ ['\n'] := by
        intro h
        rcases List.append_eq_singleton_iff.mp h with ⟨h, _⟩ | ⟨_, h⟩
        · exact hNil h
        · exact hEol.ne_nil h
      rw [List.append_assoc, Line.content_append _ (by simp [hNil]) hFeed]
  refine closes_of_content hContent ?_
  rw [Text.isBlankText, List.all_eq_true] at hTail ⊢
  exact fun c hc => hTail c (hRest.subset hc)

theorem Framed.isEol {b : DocBlock} {first last : Line} {middle : List Line}
    (h : Framed b first middle last) : Line.IsEol b.eol := by
  rw [h.eol]
  exact (h.whole first (by simp [h.lines])).isEol

theorem Framed.not_mem_indent {b : DocBlock} {first last : Line} {middle : List Line}
    (h : Framed b first middle last) : '\n' ∉ b.indent :=
  h.opens.not_mem (by decide)

/-! ## Adding annotations -/

theorem insert_of_contains {b : DocBlock} {a : Annotation} (h : b.contains a = true) :
    b.insert a = b := by
  rw [insert, if_pos h]

theorem insert_of_not_contains {b : DocBlock} {a : Annotation} (h : b.contains a = false)
    (init : List Line) {last : Line} (hLines : b.lines = init ++ [last]) :
    b.insert a = { b with lines := init ++ [a.line b.indent b.eol] ++ [last] } := by
  rw [insert, if_neg (by simp [h]), hLines, List.dropLast_concat, List.getLast?_concat,
    Option.toList_some, List.append_cons]

/-- The blocks stand for the same lines and are written in the same way. -/
structure SamePlace (b c : DocBlock) : Prop where
  start : c.start = b.start
  replaced : c.replaced = b.replaced
  indent : c.indent = b.indent
  eol : c.eol = b.eol

theorem SamePlace.refl (b : DocBlock) : SamePlace b b :=
  ⟨rfl, rfl, rfl, rfl⟩

theorem SamePlace.trans {b c d : DocBlock} (h : SamePlace b c) (h' : SamePlace c d) : SamePlace b d :=
  ⟨h'.start.trans h.start, h'.replaced.trans h.replaced, h'.indent.trans h.indent, h'.eol.trans h.eol⟩

theorem samePlace_insert (b : DocBlock) (a : Annotation) : SamePlace b (b.insert a) := by
  unfold insert
  split <;> exact ⟨rfl, rfl, rfl, rfl⟩

@[simp] theorem insert_indent (b : DocBlock) (a : Annotation) : (b.insert a).indent = b.indent :=
  (samePlace_insert b a).indent

@[simp] theorem insert_eol (b : DocBlock) (a : Annotation) : (b.insert a).eol = b.eol :=
  (samePlace_insert b a).eol

theorem Framed.insert {b : DocBlock} {first last : Line} {middle : List Line}
    (h : Framed b first middle last) {a : Annotation} (ha : '\n' ∉ a.saying) :
    ∃ more, Framed (b.insert a) first more last := by
  cases hMet : b.contains a with
  | true => exact ⟨middle, (insert_of_contains hMet).symm ▸ h⟩
  | false =>
    have hLine : Line.Whole (a.line b.indent b.eol) :=
      Annotation.whole_line ha h.not_mem_indent h.isEol
    have hInsert := insert_of_not_contains hMet (first :: middle) h.lines
    refine ⟨middle ++ [a.line b.indent b.eol], ?_⟩
    rw [hInsert]
    refine ⟨by simp, ?_, h.opens, h.eol, h.closes⟩
    intro l hl
    have hCases : l ∈ b.lines ∨ l = a.line b.indent b.eol := by
      simp only [List.mem_append, List.mem_cons, h.lines] at hl ⊢
      tauto
    rcases hCases with hOld | rfl
    · exact h.whole l hOld
    · exact hLine

theorem contains_iff {b : DocBlock} {a : Annotation} :
    b.contains a = true ↔
      ∃ l ∈ b.lines, ∃ found ∈ Annotation.findAll (Line.content l), a.agrees found = true := by
  simp only [contains, annotations, List.any_eq_true, List.mem_flatMap]
  constructor
  · rintro ⟨found, ⟨l, hl, hFound⟩, hAgrees⟩
    exact ⟨l, hl, found, hFound, hAgrees⟩
  · rintro ⟨l, hl, found, hFound, hAgrees⟩
    exact ⟨found, ⟨l, hl, hFound⟩, hAgrees⟩

theorem contains_of_subset {b c : DocBlock} (h : b.lines ⊆ c.lines) {a : Annotation}
    (hMet : b.contains a = true) : c.contains a = true := by
  obtain ⟨l, hl, hFound⟩ := contains_iff.mp hMet
  exact contains_iff.mpr ⟨l, h hl, hFound⟩

theorem subset_insert (b : DocBlock) (a : Annotation) : b.lines ⊆ (b.insert a).lines := by
  intro l hl
  rcases List.eq_nil_or_concat b.lines with hNil | ⟨init, last, hLines⟩
  · simp [hNil] at hl
  · rw [List.concat_eq_append] at hLines
    cases hMet : b.contains a with
    | true => rwa [insert_of_contains hMet]
    | false =>
      rw [insert_of_not_contains hMet init hLines]
      rw [hLines] at hl
      simp only [List.mem_append, List.mem_singleton] at hl ⊢
      tauto

/-- What has been added is found again. -/
theorem contains_insert {b : DocBlock} {a : Annotation} (ha : a.Legible) (hEol : Line.IsEol b.eol)
    (hStar : '*' ∉ b.indent) : (b.insert a).contains a = true := by
  cases hMet : b.contains a with
  | true => rwa [insert_of_contains hMet]
  | false =>
    rw [insert, if_neg (by simp [hMet]), contains_iff]
    refine ⟨a.line b.indent b.eol, by simp, _, ?_, a.agrees_self⟩
    rw [ Annotation.content_line ha hEol]
    exact Annotation.mem_findAll_saying ha hStar

theorem Framed.contains_insert {b : DocBlock} {first last : Line} {middle : List Line}
    (h : Framed b first middle last) {a : Annotation} (ha : a.Legible) :
    (b.insert a).contains a = true :=
  DocBlock.contains_insert ha h.isEol (h.opens.not_mem (by decide))

/-! ## Clearing annotations -/

/-- The opening line as `clear` leaves it. -/
def openingAfter (l : Line) : Line :=
  if isTagged l then clearedOpening l else l

/-- The closing line as `clear` leaves it. -/
def closingAfter (b : DocBlock) (l : Line) : Line :=
  if isTagged l then b.clearedClosing l else l

theorem samePlace_clear (b : DocBlock) : SamePlace b b.clear :=
  ⟨rfl, rfl, rfl, rfl⟩

@[simp] theorem clear_start (b : DocBlock) : b.clear.start = b.start :=
  (samePlace_clear b).start

@[simp] theorem clear_replaced (b : DocBlock) : b.clear.replaced = b.replaced :=
  (samePlace_clear b).replaced

@[simp] theorem clear_indent (b : DocBlock) : b.clear.indent = b.indent :=
  (samePlace_clear b).indent

@[simp] theorem clear_eol (b : DocBlock) : b.clear.eol = b.eol :=
  (samePlace_clear b).eol

theorem clearLines_append (b : DocBlock) {n i : Nat} {middle : List Line} (hi : 0 < i)
    (hn : n = i + middle.length) (last : Line) :
    (b.clearLines n i (middle ++ [last])).1 =
      middle.filter (fun l => !isTagged l) ++ [b.closingAfter last] := by
  induction middle generalizing i with
  | nil =>
    have hNot : i ≠ 0 := by omega
    by_cases hTagged : isTagged last = true <;> simp [clearLines, closingAfter, hTagged, hNot, hn]
  | cons l middle ih =>
    have hRest := ih (Nat.succ_pos i) (by rw [hn, List.length_cons]; omega)
    have hNot : i ≠ 0 := by omega
    have hInside : i ≠ n := by rw [hn, List.length_cons]; omega
    by_cases hTagged : isTagged l = true <;> simp [clearLines, hTagged, hNot, hInside, hRest]

theorem clear_eq {b : DocBlock} {first last : Line} {middle : List Line}
    (h : b.lines = first :: (middle ++ [last])) :
    b.clear = { b with lines := openingAfter first ::
      (middle.filter (fun l => !isTagged l) ++ [b.closingAfter last]) } := by
  have hLast : b.lines.length - 1 = 1 + middle.length := by simp [h, Nat.add_comm]
  have hRest := b.clearLines_append Nat.one_pos hLast last
  change ({ b with lines := (b.clearLines (b.lines.length - 1) 0 b.lines).1 } : DocBlock) = _
  by_cases hTagged : isTagged first = true <;>
    simp [h, clearLines, openingAfter, hTagged, ← hRest]

/-- The lines that are counted are those that hold the tag. -/
theorem snd_clearLines (b : DocBlock) (n i : Nat) (ls : List Line) :
    (b.clearLines n i ls).2 = ls.countP isTagged := by
  induction ls generalizing i with
  | nil => rfl
  | cons l ls ih =>
    rw [clearLines, List.countP_cons, ← ih (i + 1)]
    by_cases hTagged : isTagged l = true
    · simp only [hTagged, if_true]
      split
      · rfl
      · split <;> rfl
    · simp only [hTagged, Bool.false_eq_true, if_false, Nat.add_zero]

theorem taggedCount_eq (b : DocBlock) : b.taggedCount = b.lines.countP isTagged :=
  b.snd_clearLines _ _ _

theorem isTagged_eq_false_of_not_mem {l : Line} (h : '@' ∉ l.content) : isTagged l = false :=
  Text.holds_eq_false_iff.mpr (Text.not_infix_of_not_mem (by simp [ Annotation.tag]) h)

theorem isTagged_line (a : Annotation) (indent eol : List Char) : isTagged (a.line indent eol) = true := by
  have hContent : Line.content (a.line indent eol) = (indent ++ [' ', '*', ' '] ++ Annotation.tag) ++
      Line.content (' ' :: (a.typeName.toList ++ ' ' :: '$' :: a.symbol.toList ++ eol)) := by
    rw [← Line.content_append _ (by simp) (by simp)]
    simp [ Annotation.line]
  rw [isTagged, hContent, Text.holds_iff]
  exact ⟨indent ++ [' ', '*', ' '], _, rfl⟩

theorem clearedOpening_of_isTagged {l : Line} (hTagged : isTagged l = true) : ∃ before after,
    Text.cutFirst? Annotation.tag l.content = some (before, after) ∧
      clearedOpening l = Text.trimEnd before ++ l.eol := by
  obtain ⟨⟨before, after⟩, hCut⟩ := Option.isSome_iff_exists.mp hTagged
  exact ⟨before, after, hCut, by simp [clearedOpening, hCut]⟩

/-- A tagged opening line keeps what stands before its tag, trimmed, and its end of line. -/
theorem exists_cut_of_isTagged {l : Line} (hWhole : Line.Whole l) (hTagged : isTagged l = true) :
    ∃ before after, Text.cutFirst? Annotation.tag l.content = some (before, after) ∧
      clearedOpening l = Text.trimEnd before ++ l.eol ∧
      Line.content (clearedOpening l) = Text.trimEnd before ∧
      Line.eol (clearedOpening l) = l.eol := by
  obtain ⟨before, after, hCut, hLine⟩ := clearedOpening_of_isTagged hTagged
  have hReturn : (Text.trimEnd before).getLast? ≠ some '\r' := fun hLast => by
    simpa using (Text.getLast?_trimEnd hLast).symm.trans (show Text.isBlank '\r' = true by decide)
  refine ⟨before, after, hCut, hLine, ?_, ?_⟩
  · rw [hLine, Line.content_append_isEol hWhole.isEol hReturn]
  · rw [hLine, Line.eol_append_isEol hWhole.isEol hReturn]

/-- The opening line as it is cut off: the tag starts after the opening sign, which stays. -/
theorem clearedOpening_eq {indent : List Char} {l : Line} (hOpens : Opens indent l)
    (hTagged : isTagged l = true) : ∃ kept lost,
      clearedOpening l = indent ++ opening ++ kept ++ l.eol ∧
        l.content = indent ++ opening ++ kept ++ lost := by
  obtain ⟨before, after, hCut, hLine⟩ := clearedOpening_of_isTagged hTagged
  have hContent : l.content = before ++ Annotation.tag ++ after := Text.eq_of_cutFirst? hCut
  obtain ⟨rest, hOpening⟩ := hOpens.content
  have hAt : '@' ∉ indent ++ opening := by
    simpa [opening] using hOpens.not_mem (c := '@') (by decide)
  have hLong : indent ++ opening <+: before := by
    have hBoth : before ++ '@' :: ( Annotation.tag.tail ++ after) = indent ++ opening ++ rest := by
      rw [← hOpening, hContent, List.append_assoc]
      rfl
    exact Text.prefix_of_append_cons hAt hBoth
  obtain ⟨s, hs⟩ := hLong
  obtain ⟨lost, hLost⟩ := Text.trimEnd_initial s
  have hTrim : Text.trimEnd before = indent ++ opening ++ Text.trimEnd s := by
    have hStar := Text.trimEnd_append (t := indent ++ ['/', '*']) (c := '*') (by decide) s
    rw [← hs]
    simpa [opening] using hStar
  refine ⟨Text.trimEnd s, lost ++ ( Annotation.tag ++ after), by rw [hLine, hTrim], ?_⟩
  have hBefore : before = indent ++ opening ++ Text.trimEnd s ++ lost := by
    rw [List.append_assoc _ (Text.trimEnd s), hLost, hs]
  rw [hContent, hBefore]
  simp only [List.append_assoc]

theorem clearedOpening_spec {indent : List Char} {l : Line} (hWhole : Line.Whole l)
    (hOpens : Opens indent l) (hTagged : isTagged l = true) :
    Line.Whole (clearedOpening l) ∧ Opens indent (clearedOpening l) ∧
      (clearedOpening l).eol = l.eol ∧ isTagged (clearedOpening l) = false := by
  obtain ⟨before, after, hCut, hLine, hKept, hEol⟩ := exists_cut_of_isTagged hWhole hTagged
  have hContent : l.content = before ++ Annotation.tag ++ after := Text.eq_of_cutFirst? hCut
  have hFeed : '\n' ∉ Text.trimEnd before := by
    intro hMem
    refine Line.not_mem_content (.inl hWhole) ?_
    rw [hContent, List.append_assoc]
    exact List.mem_append_left _ ((Text.trimEnd_initial before).subset hMem)
  refine ⟨?_, ?_, hEol, ?_⟩
  · rw [hLine]
    exact hWhole.isEol.whole.append hFeed
  · obtain ⟨kept, _, hKept, _⟩ := clearedOpening_eq hOpens hTagged
    exact ⟨hOpens.1, kept ++ l.eol, by rw [hKept, List.append_assoc _ kept]⟩
  · rw [isTagged, hKept, Text.holds_eq_false_iff]
    exact fun hInfix => Text.not_infix_of_cutFirst? (by simp [ Annotation.tag]) hCut
      (hInfix.trans (Text.trimEnd_initial before).isInfix)

theorem clearedClosing_of_whole (b : DocBlock) {l : Line} (hWhole : Line.Whole l) :
    b.clearedClosing l = closingLine b.indent ++ l.eol := by
  simp [clearedClosing, hWhole.isEol.ne_nil]

theorem content_clearedClosing (b : DocBlock) {l : Line} (hWhole : Line.Whole l) :
    (b.clearedClosing l).content = closingLine b.indent := by
  rw [clearedClosing_of_whole b hWhole,
    Line.content_append_isEol hWhole.isEol (by simp [closingLine, closing])]

theorem clearedClosing_spec {b : DocBlock} {l : Line} (hWhole : Line.Whole l)
    (hIndent : ∀ c ∈ b.indent, Line.isIndent c = true) :
    Line.Whole (b.clearedClosing l) ∧ Closes (b.clearedClosing l) ∧
      isTagged (b.clearedClosing l) = false := by
  have hFree {c : Char} (hc : Line.isIndent c = false) (hClosing : c ∉ closing) :
      c ∉ closingLine b.indent := by
    have hNot : c ∉ b.indent := fun hMem => by
      rw [hIndent c hMem] at hc
      cases hc
    have hSpace : c ≠ ' ' := by
      rintro rfl
      exact absurd hc (by decide)
    simp [closingLine, hNot, hSpace, hClosing]
  have hContent : (b.clearedClosing l).content = b.indent ++ [' '] ++ closing ++ [] := by
    rw [content_clearedClosing b hWhole]
    simp [closingLine]
  refine ⟨?_, closes_of_content hContent rfl, ?_⟩
  · rw [clearedClosing_of_whole b hWhole]
    exact hWhole.isEol.whole.append (hFree (by decide) (by decide))
  · apply isTagged_eq_false_of_not_mem
    rw [content_clearedClosing b hWhole]
    exact hFree (by decide) (by decide)

theorem openingAfter_spec {indent : List Char} {l : Line} (hWhole : Line.Whole l)
    (hOpens : Opens indent l) : Line.Whole (openingAfter l) ∧ Opens indent (openingAfter l) ∧
      (openingAfter l).eol = l.eol ∧ isTagged (openingAfter l) = false := by
  unfold openingAfter
  split
  next hTagged => exact clearedOpening_spec hWhole hOpens hTagged
  next hTagged => exact ⟨hWhole, hOpens, rfl, by simpa using hTagged⟩

theorem closingAfter_spec {b : DocBlock} {l : Line} (hWhole : Line.Whole l)
    (hIndent : ∀ c ∈ b.indent, Line.isIndent c = true) : Line.Whole (b.closingAfter l) ∧
      (Closes l → Closes (b.closingAfter l)) ∧ isTagged (b.closingAfter l) = false := by
  unfold closingAfter
  split
  next =>
    obtain ⟨hLine, hCloses, hBare⟩ := clearedClosing_spec hWhole hIndent
    exact ⟨hLine, fun _ => hCloses, hBare⟩
  next hTagged => exact ⟨hWhole, id, by simpa using hTagged⟩

/-- No tag is left, whatever stands between the opening and the closing line. -/
theorem isTagged_of_mem_clear {b : DocBlock} {first last : Line} {middle : List Line}
    (hLines : b.lines = first :: (middle ++ [last])) (hFirst : Line.Whole first)
    (hOpens : Opens b.indent first) (hLast : Line.Whole last) :
    ∀ l ∈ b.clear.lines, isTagged l = false := by
  intro l hl
  rw [clear_eq hLines] at hl
  rcases List.mem_cons.mp hl with rfl | hl
  · exact (openingAfter_spec hFirst hOpens).2.2.2
  rcases List.mem_append.mp hl with hl | hl
  · simpa using (List.mem_filter.mp hl).2
  · obtain rfl := List.mem_singleton.mp hl
    exact (closingAfter_spec hLast hOpens.1).2.2

theorem clear_eq_self {b : DocBlock} {first last : Line} {middle : List Line}
    (hLines : b.lines = first :: (middle ++ [last])) (hBare : ∀ l ∈ b.lines, isTagged l = false) :
    b.clear = b := by
  have hFirst : isTagged first = false := hBare first (by simp [hLines])
  have hLast : isTagged last = false := hBare last (by simp [hLines])
  have hMiddle : middle.filter (fun l => !isTagged l) = middle := by
    rw [List.filter_eq_self]
    intro l hl
    simp [hBare l (by simp [hLines, hl])]
  rw [clear_eq hLines]
  simp [hMiddle, openingAfter, closingAfter, hFirst, hLast, ← hLines]

theorem Framed.clear {b : DocBlock} {first last : Line} {middle : List Line}
    (h : Framed b first middle last) :
    Framed b.clear (openingAfter first) (middle.filter fun l => !isTagged l)
        (b.closingAfter last) ∧
      ∀ l ∈ b.clear.lines, isTagged l = false := by
  have hFirst : Line.Whole first := h.whole first (by simp [h.lines])
  have hLast : Line.Whole last := h.whole last (by simp [h.lines])
  obtain ⟨hOpening, hOpens, hEol, _⟩ := openingAfter_spec hFirst h.opens
  obtain ⟨hClosing, hCloses, _⟩ := closingAfter_spec hLast h.opens.1
  have hClear := clear_eq h.lines
  have hLines : b.clear.lines = openingAfter first ::
      (middle.filter (fun l => !isTagged l) ++ [b.closingAfter last]) := by rw [hClear]
  refine ⟨⟨hLines, ?_, ?_, ?_, hCloses h.closes⟩,
    isTagged_of_mem_clear h.lines hFirst h.opens hLast⟩
  · intro l hl
    rw [hLines] at hl
    rcases List.mem_cons.mp hl with rfl | hl
    · exact hOpening
    rcases List.mem_append.mp hl with hl | hl
    · have hMem := (List.mem_filter.mp hl).1
      exact h.whole l (by simp [h.lines, hMem])
    · obtain rfl := List.mem_singleton.mp hl
      exact hClosing
  · rw [hClear]
    exact hOpens
  · rw [hClear, hEol]
    exact h.eol

end DocBlock

end DocWiring
