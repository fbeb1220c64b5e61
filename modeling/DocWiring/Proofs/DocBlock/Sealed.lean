import DocWiring.Php.Lexeme
import DocWiring.Proofs.Merge.Insertion

/-! # Blocks that are one comment

The lines of a block are sealed if they hold one comment between an indent and white space: the sign
that closes the comment is the last one, and no other stands before it.  Adding and clearing
annotations keep a block sealed.
-/

namespace DocWiring.DocBlock

/-- No closing sign stands in the text, nor does one with a star after it. -/
def Unclosed (t : List Char) : Prop :=
  ¬ closing <:+: t ++ ['*']

structure Sealed (b : DocBlock) (first : Line) (middle : List Line) (last : Line) : Prop where
  lines : b.lines = first :: (middle ++ [last])
  opened : ∃ f, first = b.indent ++ opening ++ f ∧ ¬ closing <:+: '*' :: f
  between : ∀ l ∈ middle, ¬ closing <:+: l
  closed : ∃ g tail, last = g ++ closing ++ tail ∧ Unclosed g ∧ ∀ c ∈ tail, Php.isSpace c = true

theorem not_infix_of_slash {t : List Char} (h : '/' ∉ t) : ¬ closing <:+: t :=
  Text.not_infix_of_not_mem (by simp [closing]) h

theorem unclosed_of_slash {t : List Char} (h : '/' ∉ t) : Unclosed t :=
  not_infix_of_slash (by simp [h])

theorem isSpace_of_isEol {eol : List Char} (h : Line.IsEol eol) :
    ∀ c ∈ eol, Php.isSpace c = true := by
  rw [← List.all_eq_true]
  rcases h with rfl | rfl <;> decide

theorem not_mem_of_isSpace {t : List Char} (h : ∀ c ∈ t, Php.isSpace c = true) {c : Char}
    (hc : Php.isSpace c = false) : c ∉ t := by
  intro hMem
  rw [h c hMem] at hc
  cases hc

theorem not_infix_append_eol {t eol : List Char} (hEol : Line.IsEol eol)
    (h : ¬ closing <:+: t) : ¬ closing <:+: t ++ eol := by
  obtain ⟨c, r, rfl⟩ := List.exists_cons_of_ne_nil hEol.ne_nil
  have hSpace := isSpace_of_isEol hEol
  intro hInfix
  have hc : c ∉ closing := by
    intro hMem
    have hThis := hSpace c List.mem_cons_self
    simp only [closing, List.mem_cons, List.not_mem_nil, or_false] at hMem
    rcases hMem with rfl | rfl
    · exact absurd hThis (by decide)
    · exact absurd hThis (by decide)
  rcases Text.infix_append_cons hc hInfix with hBefore | hAfter
  · exact h hBefore
  · have hSlash := not_mem_of_isSpace (t := r) (c := '/')
      (fun d hd => hSpace d (List.mem_cons_of_mem c hd)) (by decide)
    exact not_infix_of_slash hSlash hAfter

theorem not_infix_flatten {ls : List Line} (hWhole : ∀ l ∈ ls, Line.Whole l)
    (hFree : ∀ l ∈ ls, ¬ closing <:+: l) {t : List Char} (ht : ¬ closing <:+: t) :
    ¬ closing <:+: ls.flatten ++ t := by
  induction ls with
  | nil => exact ht
  | cons l ls ih =>
    obtain ⟨hl, hls⟩ := List.forall_mem_cons.mp hWhole
    obtain ⟨hFirst, hRest⟩ := List.forall_mem_cons.mp hFree
    obtain ⟨body, _, rfl⟩ := hl
    intro h
    have hSplit : (((body ++ ['\n']) :: ls).flatten ++ t) = body ++ '\n' :: (ls.flatten ++ t) := by
      simp
    rw [hSplit] at h
    rcases Text.infix_append_cons (by decide) h with hBody | hLater
    · exact hFirst (hBody.trans (List.infix_append' [] body ['\n']))
    · exact ih hls hRest hLater

/-- The text of a sealed block is one comment. -/
theorem Sealed.exists_body {b : DocBlock} {first last : Line} {middle : List Line}
    (h : Sealed b first middle last) (hWhole : ∀ l ∈ b.lines, Line.Whole l) :
    ∃ body tail, b.lines.flatten = b.indent ++ '/' :: '*' :: (body ++ closing) ++ tail ∧
      body.head? = some '*' ∧ Unclosed body ∧ (∀ c ∈ tail, Php.isSpace c = true) ∧
      Line.Whole tail := by
  obtain ⟨f, hFirst, hOpened⟩ := h.opened
  obtain ⟨g, tail, hLast, hClosed, hSpace⟩ := h.closed
  have hMiddle : ∀ l ∈ middle, Line.Whole l := fun l hl => hWhole l (by simp [h.lines, hl])
  have hAfterOpening : Line.Whole f := by
    have hLine := hWhole first (by simp [h.lines])
    rw [hFirst, opening, List.append_assoc] at hLine
    refine (Line.Whole.of_append_cons (t := b.indent ++ ['/', '*']) (c := '*') ?_ (by decide)).2
    simpa using hLine
  have hAfterClosing : Line.Whole tail := by
    have hLine := hWhole last (by simp [h.lines])
    rw [hLast, closing, List.append_assoc] at hLine
    refine (Line.Whole.of_append_cons (t := g ++ ['*']) (c := '/') ?_ (by decide)).2
    simpa using hLine
  refine ⟨'*' :: (f ++ middle.flatten ++ g), tail, ?_, rfl, ?_, hSpace, hAfterClosing⟩
  · rw [h.lines, hFirst, hLast]
    simp [opening]
  · intro hInfix
    have hLines : ∀ l ∈ ('*' :: f) :: middle, Line.Whole l :=
      List.forall_mem_cons.mpr ⟨hAfterOpening.append (t := ['*']) (by decide), hMiddle⟩
    have hFree : ∀ l ∈ ('*' :: f) :: middle, ¬ closing <:+: l :=
      List.forall_mem_cons.mpr ⟨hOpened, h.between⟩
    apply not_infix_flatten hLines hFree hClosed
    simpa using hInfix

/-! ## Adding and clearing annotations -/

theorem slash_not_mem_line {a : Annotation} (ha : a.Wordy) {indent eol : List Char}
    (hIndent : '/' ∉ indent) (hEol : Line.IsEol eol) : '/' ∉ a.line indent eol := by
  have hWord {t : List Char} (ht : ∀ c ∈ t, Text.isWord c = true) : '/' ∉ t := fun hMem =>
    absurd (ht '/' hMem) (by decide +kernel)
  have hEnd : '/' ∉ eol := not_mem_of_isSpace (isSpace_of_isEol hEol) (by decide)
  have hType := hWord ha.worded
  have hSymbol := hWord ha.word
  simp [ Annotation.line, Annotation.tag, hIndent, hEnd, hType, hSymbol]

theorem Sealed.foldl_insert {b : DocBlock} {first last : Line} {middle : List Line}
    {annotations : List Annotation} (hFramed : Framed b first middle last)
    (h : Sealed b first middle last) (hAnn : ∀ a ∈ annotations, a.Wordy) :
    Sealed (annotations.foldl insert b) first
      (middle ++ (Merge.missing b annotations).map fun a => a.line b.indent b.eol) last := by
  have hLines := foldl_insert_lines annotations (first :: middle) h.lines
  refine ⟨by simpa using hLines, by simpa using h.opened, ?_, h.closed⟩
  intro l hl
  rcases List.mem_append.mp hl with hOld | hNew
  · exact h.between l hOld
  · obtain ⟨a, ha, rfl⟩ := List.mem_map.mp hNew
    exact not_infix_of_slash (slash_not_mem_line (hAnn a (Merge.mem_of_mem_missing ha))
      (hFramed.opens.not_mem (by decide)) hFramed.isEol)

theorem Sealed.clear {b : DocBlock} {first last : Line} {middle : List Line}
    (hFramed : Framed b first middle last) (h : Sealed b first middle last) :
    Sealed b.clear (openingAfter first) (middle.filter fun l => !isTagged l)
      (b.closingAfter last) := by
  have hClear := clear_eq h.lines
  refine ⟨by rw [hClear], ?_, ?_, ?_⟩
  · rw [clear_indent]
    unfold openingAfter
    split
    next hTagged =>
      obtain ⟨f, hFirst, hOpened⟩ := h.opened
      obtain ⟨kept, lost, hKept, hContent⟩ := clearedOpening_eq hFramed.opens hTagged
      have hSame : f = kept ++ (lost ++ first.eol) := by
        have hLine := Line.content_append_eol first
        rw [hContent, List.append_assoc, List.append_assoc] at hLine
        exact (List.append_cancel_left (hLine.trans hFirst)).symm
      refine ⟨kept ++ first.eol, by rw [hKept, List.append_assoc], ?_⟩
      rw [hSame] at hOpened
      exact not_infix_append_eol (hFramed.whole first (by simp [h.lines])).isEol
        fun hInfix => hOpened (hInfix.trans (List.infix_append' [] ('*' :: kept) _))
    next => exact h.opened
  · intro l hl
    exact h.between l (List.mem_filter.mp hl).1
  · unfold closingAfter
    split
    next hTagged =>
      have hSlash : '/' ∉ b.indent := hFramed.opens.not_mem (by decide)
      have hWhole : Line.Whole last := hFramed.whole last (by simp [h.lines])
      refine ⟨b.indent ++ [' '], last.eol, ?_, unclosed_of_slash (by simp [hSlash]),
        isSpace_of_isEol hWhole.isEol⟩
      simp [clearedClosing_of_whole b hWhole, closingLine]
    next => exact h.closed

/-- An indent, one comment, and white space up to the end of the line. -/
structure Commented (t z body tail : List Char) : Prop where
  text : t = z ++ '/' :: '*' :: (body ++ closing) ++ tail
  indented : '/' ∉ z
  unclosed : Unclosed body
  spaced : ∀ c ∈ tail, Php.isSpace c = true
  ends : Line.Whole tail

/-- Everything before the first slash is the indent. -/
theorem Commented.indent_eq {t z body tail rest indent : List Char} (h : Commented t z body tail)
    (hIndent : '/' ∉ indent) (ht : t = indent ++ opening ++ rest) :
    z = indent ∧ '*' :: rest = body ++ closing ++ tail := by
  have hSplit : z ++ '/' :: ('*' :: (body ++ closing) ++ tail) = indent ++ '/' :: '*' :: '*' :: rest := by
    have hBoth := h.text.symm.trans ht
    simpa [opening] using hBoth
  have hZ : z = indent := by
    have hTake := congrArg (List.takeWhile fun c => c != '/') hSplit
    rw [List.takeWhile_append_of_pos, List.takeWhile_append_of_pos] at hTake
    · simpa using hTake
    · intro c hc
      simpa using ne_of_mem_of_not_mem hc hIndent
    · intro c hc
      simpa using ne_of_mem_of_not_mem hc h.indented
  subst hZ
  have hRest := List.append_cancel_left hSplit
  simpa using hRest.symm

theorem Unclosed.not_infix {t s : List Char} (h : Unclosed t) (hs : s <:+: t) :
    ¬ closing <:+: s := by
  intro hInfix
  exact h (hInfix.trans (hs.trans (List.infix_append' [] t ['*'])))

theorem sealed_of_blank {u : SourceUnit} {n : Nat} {b : DocBlock} (h : blank u n = .ok b) :
    Sealed b (b.indent ++ opening ++ b.eol) [] (closingLine b.indent ++ b.eol) := by
  obtain ⟨_, _, _, hFramed⟩ := framed_of_blank h
  have hEol := hFramed.isEol
  have hSlash : '/' ∉ b.indent := hFramed.opens.not_mem (by decide)
  refine ⟨hFramed.lines, ⟨b.eol, rfl, not_infix_append_eol hEol (t := ['*']) (by decide)⟩, by simp, ?_⟩
  refine ⟨b.indent ++ [' '], b.eol, by simp [closingLine], unclosed_of_slash (by simp [hSlash]), ?_⟩
  exact isSpace_of_isEol hEol

/-- The closing sign stands in the last line, as white space without a newline follows it. -/
theorem exists_before_closing {front last body tail : List Char} (hFront : front.getLast? = some '\n')
    (hNil : last ≠ []) (hTail : Line.Whole tail) (h : front ++ last = body ++ (closing ++ tail)) :
    ∃ g, body = front ++ g ∧ last = g ++ closing ++ tail := by
  rcases List.append_eq_append_iff.mp h with ⟨g, hBody, hLast⟩ | ⟨k, hBody, hLast⟩
  · exact ⟨g, hBody, by rw [hLast, List.append_assoc]⟩
  · have hClosing : Line.Whole (k ++ last) := by
      rw [← hLast]
      exact hTail.append (by decide)
    have hFree := hClosing.not_mem_of_append hNil
    rcases List.eq_nil_or_concat k with rfl | ⟨k', d, rfl⟩
    · exact ⟨[], by simpa using hBody.symm, by simpa using hLast.symm⟩
    · rw [hBody, List.concat_eq_append, ← List.append_assoc, List.getLast?_concat] at hFront
      simp [Option.some.inj hFront] at hFree

theorem whole_of_flatten {u : SourceUnit} {above below ls : List Line} {last : Line}
    (hCut : Line.AreCut u.lines) (hUnit : u.lines = above ++ (ls ++ [last]) ++ below)
    (hEnd : (ls ++ [last]).flatten.getLast? = some '\n') : ∀ l ∈ ls ++ [last], Line.Whole l := by
  have hRest : Line.AreCut (ls ++ last :: below) := by
    have hDrop := hCut.drop above.length
    rw [hUnit, List.append_assoc, List.drop_left] at hDrop
    simpa using hDrop
  have hLast : Line.AreCut (last :: below) := by
    have hDrop := hRest.drop ls.length
    rwa [List.drop_left] at hDrop
  intro l hl
  rcases List.mem_append.mp hl with hl | hl
  · exact hRest.whole_of_append (by simp) l hl
  · obtain rfl := List.mem_singleton.mp hl
    obtain ⟨_, hNil, hKind⟩ := Line.areCut_cons hLast
    rcases hKind with hWhole | ⟨_, hFree⟩
    · exact hWhole
    · rw [List.flatten_append, List.flatten_singleton, List.getLast?_append_of_ne_nil _ hNil] at hEnd
      exact absurd (List.mem_of_getLast? hEnd) hFree

theorem Commented.getLast? {t z body tail : List Char} (h : Commented t z body tail) :
    t.getLast? = some '\n' := by
  obtain ⟨s, _, hTail⟩ := h.ends
  rw [h.text, hTail, ← List.append_assoc, List.getLast?_concat]

theorem sealed_of_several {u : SourceUnit} {c : DocComment} {b : DocBlock} {z body tail : List Char}
    (hCut : Line.AreCut u.lines) (h : ofComment u c = .ok b) (hSeveral : c.startLine ≠ c.endLine)
    (hText : Commented b.replaced.flatten z body tail) :
    ∃ first middle last, Sealed b first middle last := by
  obtain ⟨first, middle, last, _, _, hChecked, ⟨above, below, _, hUnit⟩, hReplaced, _, _,
    hIndent, _, hLines⟩ := ofComment_of_several hCut h hSeveral
  have hEnd := hText.getLast?
  rw [hReplaced] at hEnd hUnit
  rw [← List.cons_append] at hEnd hUnit
  have hWhole := whole_of_flatten hCut hUnit hEnd
  have hLast : Line.Whole last := hWhole last (by simp)
  obtain ⟨rest, hFirst⟩ := hChecked.opens.2
  have hAll : b.replaced.flatten = first.indent ++ opening ++ (rest ++ (middle.flatten ++ last)) := by
    rw [hReplaced]
    conv_lhs => rw [hFirst]
    simp
  obtain ⟨_, hBody⟩ := hText.indent_eq (hChecked.opens.not_mem (by decide)) hAll
  have hFront : ('*' :: rest ++ middle.flatten).getLast? = some '\n' := by
    have hBefore : ∀ l ∈ ('*' :: rest) :: middle, Line.Whole l := by
      refine List.forall_mem_cons.mpr ⟨?_, fun l hl => hWhole l (by simp [hl])⟩
      have hLine := hWhole first (by simp)
      rw [hFirst, opening] at hLine
      refine (Line.Whole.of_append_cons (t := first.indent ++ ['/']) (c := '*') ?_ (by decide)).2
      simpa using hLine
    exact Line.getLast?_flatten hBefore (by simp)
  obtain ⟨g, hSame, hClose⟩ := exists_before_closing hFront hLast.ne_nil hText.ends
    (by simpa using hBody)
  refine ⟨first, middle, last, ?_, ⟨rest, by rw [hIndent]; exact hFirst, ?_⟩, ?_,
    ⟨g, tail, hClose, ?_, hText.spaced⟩⟩
  · rw [hLines, if_neg (by simp [hLast.isEol.ne_nil])]
  · apply hText.unclosed.not_infix
    rw [hSame]
    exact ⟨[], middle.flatten ++ g, by simp⟩
  · intro l hl
    have hMem : l <:+: middle.flatten := List.infix_of_mem_flatten hl
    apply hText.unclosed.not_infix
    rw [hSame]
    exact hMem.trans ⟨'*' :: rest, g, by simp⟩
  · intro hInfix
    apply hText.unclosed
    rw [hSame, List.append_assoc]
    exact hInfix.trans (List.suffix_append _ _).isInfix

section Single

variable {u : SourceUnit} {c : DocComment} {line : Line} {head rest z body tail : List Char}

/-- Both cut the line at its last closing sign. -/
theorem Commented.cut_eq (h : Commented line z body tail) (hChecked : Checked u c line line head rest) :
    head = z ++ '/' :: '*' :: body ∧ tail = rest ++ line.eol := by
  have hStar : '*' ∉ '/' :: tail := by
    have hFree := not_mem_of_isSpace h.spaced (c := '*') (by decide)
    simpa using hFree
  have hMark : closing = '*' :: ['/'] := rfl
  have hCut := Text.cutLast?_append hMark
    (Text.not_infix_of_not_mem (by simp [closing]) hStar) (z ++ '/' :: '*' :: body)
  have hLine : line = z ++ '/' :: '*' :: body ++ closing ++ tail := by simpa using h.text
  rw [← hLine, hChecked.cutLast?_line] at hCut
  obtain ⟨hHead, hTail⟩ := Prod.mk.inj (Option.some.inj hCut)
  exact ⟨hHead, hTail.symm⟩

/-- The opening sign and the closing sign do not share their star. -/
theorem Commented.exists_star (h : Commented line z body tail)
    (hChecked : Checked u c line line head rest)
    (hLong : line.indent.length + opening.length ≤ head.length) :
    z = line.indent ∧ ∃ f, body = '*' :: f := by
  obtain ⟨r, hOpening⟩ := hChecked.opens.2
  obtain ⟨hIndent, hBody⟩ := h.indent_eq (hChecked.opens.not_mem (by decide)) hOpening
  refine ⟨hIndent, ?_⟩
  cases body with
  | nil =>
    rw [(h.cut_eq hChecked).1, ← hIndent] at hLong
    simp [opening] at hLong
  | cons d f =>
    rw [List.cons_append, List.cons_append] at hBody
    exact ⟨f, by rw [(List.cons.inj hBody).1]⟩

end Single

theorem sealed_of_single {u : SourceUnit} {c : DocComment} {b : DocBlock} {z body tail : List Char}
    (h : ofComment u c = .ok b) (hSingle : c.startLine = c.endLine)
    (hText : Commented b.replaced.flatten z body tail) :
    ∃ first middle last, Sealed b first middle last := by
  obtain ⟨line, head, rest, hChecked, _, hReplaced, _, hIndent, hLong, hLines, _⟩ :=
    ofComment_of_single h hSingle
  have hLine : Commented line z body tail := by
    rw [hReplaced, List.flatten_singleton] at hText
    exact hText
  obtain ⟨hHead, hTail⟩ := hLine.cut_eq hChecked
  obtain ⟨rfl, f, rfl⟩ := hLine.exists_star hChecked hLong
  have hNear := u.isEol_eolNear line
  have hSlash : '/' ∉ line.indent := hChecked.opens.not_mem (by decide)
  refine ⟨head ++ eolNear u line, [], _, by rw [hLines]; rfl, ⟨f ++ eolNear u line, ?_, ?_⟩,
    by simp, ⟨line.indent ++ [' '], rest ++ line.eol ++
      (if (Line.eol (rest ++ line.eol)).isEmpty then eolNear u line else []), ?_,
      unclosed_of_slash (by simp [hSlash]), ?_⟩⟩
  · rw [hIndent, hHead]
    simp [opening]
  · rw [← List.cons_append]
    exact not_infix_append_eol hNear (hText.unclosed.not_infix (List.infix_refl _))
  · simp [closingLine]
  · intro d hd
    rcases List.mem_append.mp hd with hd | hd
    · exact hText.spaced d (hTail ▸ hd)
    · split at hd
      next => exact isSpace_of_isEol hNear d hd
      next => cases hd

/-- The block of a doc comment that has its lines for itself is sealed. -/
theorem sealed_of_ofComment {u : SourceUnit} {c : DocComment} {b : DocBlock} {z body tail : List Char}
    (hCut : Line.AreCut u.lines) (h : ofComment u c = .ok b)
    (hText : Commented b.replaced.flatten z body tail) :
    ∃ first middle last, Sealed b first middle last := by
  by_cases hSingle : c.startLine = c.endLine
  · exact sealed_of_single h hSingle hText
  · exact sealed_of_several hCut h hSingle hText

theorem indent_eq_of_commented {u : SourceUnit} {c : DocComment} {b : DocBlock}
    {z body tail : List Char} (h : ofComment u c = .ok b)
    (hText : Commented b.replaced.flatten z body tail) : b.indent = z := by
  obtain ⟨first, more, hReplaced, hIndent, hOpens⟩ := exists_replaced_cons h
  obtain ⟨r, hFirst⟩ := hOpens.2
  have hAll : b.replaced.flatten = first.indent ++ opening ++ (r ++ more.flatten) := by
    rw [hReplaced, List.flatten_cons]
    conv_lhs => rw [hFirst]
    simp
  rw [hIndent]
  exact (hText.indent_eq (hOpens.not_mem (by decide)) hAll).1.symm

/-! ## The block that is written -/

theorem Framed.sealed {b : DocBlock} {first last first' last' : Line} {middle middle' : List Line}
    (h : Framed b first middle last) (hSealed : Sealed b first' middle' last') :
    Sealed b first middle last := by
  obtain ⟨rfl, hRest⟩ := List.cons.inj (h.lines.symm.trans hSealed.lines)
  obtain ⟨rfl, hLast⟩ := List.append_inj' hRest rfl
  obtain rfl := List.singleton_inj.mp hLast
  exact hSealed

/-- A block with its annotations is one comment again. -/
theorem exists_body_of_final {remove : Bool} {b : DocBlock} {annotations : List Annotation}
    (hFramed : ∃ first middle last, Framed b first middle last)
    (hSealed : ∃ first middle last, Sealed b first middle last)
    (hAnn : ∀ a ∈ annotations, a.Wordy) :
    ∃ body tail, (annotations.foldl insert (Merge.base remove b)).lines.flatten =
        b.indent ++ '/' :: '*' :: (body ++ closing) ++ tail ∧
      body.head? = some '*' ∧ Unclosed body ∧ (∀ c ∈ tail, Php.isSpace c = true) ∧
      Line.Whole tail := by
  obtain ⟨_, _, _, hFramed⟩ := hFramed
  obtain ⟨_, _, _, hSealed⟩ := hSealed
  have hBase : ∃ first middle last, Framed (Merge.base remove b) first middle last ∧
      Sealed (Merge.base remove b) first middle last := by
    cases remove with
    | false => exact ⟨_, _, _, hFramed, hFramed.sealed hSealed⟩
    | true => exact ⟨_, _, _, hFramed.clear.1, (hFramed.sealed hSealed).clear hFramed⟩
  obtain ⟨_, _, _, hFramed', hSealed'⟩ := hBase
  obtain ⟨_, hFinal⟩ := hFramed'.foldl_insert fun a ha => (hAnn a ha).legible.not_mem_saying
  obtain ⟨body, tail, hText, hRest⟩ := (hSealed'.foldl_insert hFramed' hAnn).exists_body hFinal.whole
  refine ⟨body, tail, ?_, hRest⟩
  rw [hText, foldl_insert_indent]
  cases remove <;> simp [Merge.base]

end DocWiring.DocBlock
