import DocWiring.Proofs.DocBlock.Frame

/-! # Where a doc block stands

The block of a class is framed and stands for a run of lines of the file.  A framed block whose own
lines stand in a file is the block of a class whose doc comment goes over these lines.
-/

namespace DocWiring

theorem Except.exists_of_map_eq_ok {ε α β : Type} {f : α → β} {x : Except ε α} {y : β}
    (h : x.map f = .ok y) : ∃ a, x = .ok a ∧ f a = y := by
  cases x with
  | error e => cases h
  | ok a => exact ⟨a, rfl, Except.ok.inj h⟩

namespace SourceUnit

theorem line?_succ (u : SourceUnit) (n : Nat) : u.line? (n + 1) = u.lines[n]? :=
  rfl

theorem exists_of_line?_eq_some {u : SourceUnit} {n : Nat} {l : Line} (h : u.line? n = some l) :
    ∃ k, n = k + 1 ∧ u.lines[k]? = some l := by
  cases n with
  | zero => cases h
  | succ k => exact ⟨k, rfl, h⟩

theorem isEol_eolNear (u : SourceUnit) (l : Line) : Line.IsEol (DocBlock.eolNear u l) := by
  unfold DocBlock.eolNear
  split
  next =>
    cases hFirst : u.firstEol? with
    | none => exact .inl rfl
    | some e =>
      obtain ⟨m, _, rfl⟩ := List.mem_map.mp (List.mem_of_find?_eq_some hFirst)
      have hFound := List.find?_some hFirst
      exact (Line.eol_eq_nil_or_isEol m).resolve_left (by simpa using hFound)
  next hEol => exact (Line.eol_eq_nil_or_isEol l).resolve_left (by simpa using hEol)

end SourceUnit

namespace Line

theorem take_append_getElem?_append_drop {ls : List Line} {i : Nat} {l : Line}
    (h : ls[i]? = some l) : ls = ls.take i ++ l :: ls.drop (i + 1) := by
  obtain ⟨hi, rfl⟩ := List.getElem?_eq_some_iff.mp h
  rw [← List.drop_eq_getElem_cons hi, List.take_append_drop]

theorem exists_between {ls : List Line} {i j : Nat} {first last : Line}
    (hFirst : ls[i]? = some first) (hLast : ls[j]? = some last) (hij : i < j) :
    ∃ middle, (ls.drop i).take (j + 1 - i) = first :: (middle ++ [last]) ∧
      ls = ls.take i ++ first :: (middle ++ [last]) ++ ls.drop (j + 1) := by
  obtain ⟨hi, rfl⟩ := List.getElem?_eq_some_iff.mp hFirst
  have hSlice : (ls.drop i).take (j + 1 - i) = ls[i] ::
      ((ls.drop (i + 1)).take (j - i - 1) ++ [last]) := by
    rw [List.drop_eq_getElem_cons hi, show j + 1 - i = (j - i - 1 + 1) + 1 by omega,
      List.take_succ_cons, List.take_add_one, List.getElem?_drop,
      show i + 1 + (j - i - 1) = j by omega, hLast, Option.toList_some]
  refine ⟨_, hSlice, ?_⟩
  rw [← hSlice, List.append_assoc, show j + 1 = i + (j + 1 - i) by omega, ← List.drop_drop,
    show i + (j + 1 - i) - i = j + 1 - i by omega, List.take_append_drop, List.take_append_drop]

theorem eq_format_of_ofComment {t : List Char} {n : Nat} {e : Error}
    (h : ofComment t n = .error e) : ∃ fault : FormatFault, e = .format n fault ∧
      fault ≠ .commentOutside ∧ fault ≠ .classOutside := by
  unfold ofComment at h
  split at h
  next => exact ⟨_, (Except.error.inj h).symm, by decide⟩
  next => exact ⟨_, (Except.error.inj h).symm, by decide⟩
  next =>
    split at h
    next => split at h <;> cases h
    next => cases h

theorem ofComment_flatten {first last : Line} {middle : List Line}
    (h : AreCut (first :: (middle ++ [last]))) (n : Nat) :
    ofComment (first :: (middle ++ [last])).flatten n =
      .ok (first :: (middle ++ [if last.eol.isEmpty then last ++ first.eol else last])) := by
  rw [ofComment, h]
  cases hRest : middle ++ [last] with
  | nil => simp at hRest
  | cons l ls =>
    simp only [← hRest, List.getLast?_concat, List.dropLast_concat]
    split <;> rfl

end Line

namespace DocBlock

/-- The lines that the block stands for are where it says. -/
def StandsIn (b : DocBlock) (u : SourceUnit) : Prop :=
  ∃ above below, above.length = b.start ∧ u.lines = above ++ b.replaced ++ below

theorem blank_eq_ok_iff {u : SourceUnit} {n : Nat} {b : DocBlock} :
    blank u n = .ok b ↔ ∃ line, u.line? n = some line ∧
      b = { lines := [line.indent ++ opening ++ eolNear u line,
              closingLine line.indent ++ eolNear u line]
            replaced := []
            start := n - 1
            indent := line.indent
            eol := eolNear u line } := by
  unfold blank
  cases h : u.line? n with
  | none => simp
  | some line => simp [eq_comm]

/-- What has been checked of a doc comment when its block is found. -/
structure Checked (u : SourceUnit) (c : DocComment) (first last : Line) (head tail : List Char) :
    Prop where
  starts : u.line? c.startLine = some first
  ends : u.line? c.endLine = some last
  ordered : c.startLine ≤ c.endLine
  opens : Opens first.indent first
  cut : Text.cutLast? closing last.content = some (head, tail)
  blank : Text.isBlankText tail = true

/-- The lines of the file that a doc comment goes over. -/
def spanned (u : SourceUnit) (c : DocComment) : List Line :=
  (u.lines.drop (c.startLine - 1)).take (c.endLine - (c.startLine - 1))

/-- What reading a doc comment leads to: its lines are not there, they are not those of a block, or
they are. -/
inductive Reads (u : SourceUnit) (c : DocComment) : Except Error DocBlock → Prop
  | outside
    (missing : c.endLine < c.startLine ∨ u.line? c.startLine = none ∨ u.line? c.endLine = none) :
    Reads u c (.error (.format c.startLine .commentOutside))
  | refused {n : Nat} {fault : FormatFault}
    (inside : fault ≠ .commentOutside ∧ fault ≠ .classOutside) :
    Reads u c (.error (.format n fault))
  | found {first last : Line} {head tail : List Char} {b : DocBlock}
    (checked : Checked u c first last head tail) (replaced : b.replaced = spanned u c)
    (start : b.start = c.startLine - 1) (indent : b.indent = first.indent)
    (eol : b.eol = (b.lines.headD []).eol)
    (lines : (c.startLine = c.endLine ∧ first.indent.length + opening.length ≤ head.length ∧
          b.lines = unfoldedLines first.indent (eolNear u first) head (tail ++ last.eol)) ∨
        (c.startLine ≠ c.endLine ∧
          Line.ofComment (spanned u c).flatten c.startLine = .ok b.lines)) :
    Reads u c (.ok b)

theorem reads_ofComment (u : SourceUnit) (c : DocComment) : Reads u c (ofComment u c) := by
  unfold ofComment
  split
  next hReversed => exact .outside (.inl hReversed)
  next hOrdered =>
  split
  next first last hFirst hLast =>
    dsimp only
    split
    next => exact .refused (by decide)
    next hOpens =>
    split
    next => exact .refused (by decide)
    next head tail hCut =>
    split
    next => exact .refused (by decide)
    next hBlank =>
    have hChecked : Checked u c first last head tail :=
      ⟨hFirst, hLast, Nat.le_of_not_lt hOrdered, opens_of_isPrefixOf (by simpa using hOpens), hCut,
        by simpa using hBlank⟩
    split
    next hSingle =>
      split
      next => exact .refused (by decide)
      next hLong =>
        exact .found hChecked rfl rfl rfl rfl
          (.inl ⟨by simpa [DocComment.isSingleLine] using hSingle, Nat.le_of_not_lt hLong, rfl⟩)
    next hSeveral =>
      cases hLines : Line.ofComment (spanned u c).flatten c.startLine with
      | error e =>
        obtain ⟨fault, rfl, hInside⟩ := Line.eq_format_of_ofComment hLines
        rw [spanned] at hLines
        rw [hLines]
        exact .refused hInside
      | ok lines =>
        have hKept := hLines
        rw [spanned] at hLines
        rw [hLines]
        exact .found hChecked rfl rfl rfl rfl
          (.inr ⟨by simpa [DocComment.isSingleLine] using hSeveral, hKept⟩)
  next hMissing =>
    refine .outside (.inr ?_)
    cases hFirst : u.line? c.startLine with
    | none => exact .inl rfl
    | some first =>
      cases hLast : u.line? c.endLine with
      | none => exact .inr rfl
      | some last => exact absurd hLast (hMissing first last hFirst)

theorem eq_format_of_ofComment {u : SourceUnit} {c : DocComment} {e : Error}
    (h : ofComment u c = .error e) : ∃ n fault, e = .format n fault := by
  have hReads := reads_ofComment u c
  rw [h] at hReads
  cases hReads with
  | outside => exact ⟨_, _, rfl⟩
  | refused => exact ⟨_, _, rfl⟩

/-- A class without a block has a comment or a first line that cannot be taken as lines. -/
theorem eq_format_of_locate {u : SourceUnit} {cls : ClassNode} {e : Error}
    (h : locate u cls = .error e) : ∃ n fault, e = .format n fault := by
  unfold locate at h
  split at h
  next => exact eq_format_of_ofComment h
  next =>
    unfold blank at h
    split at h
    next => exact ⟨_, _, (Except.error.inj h).symm⟩
    next => cases h

theorem ofComment_eq_ok {u : SourceUnit} {c : DocComment} {b : DocBlock}
    (h : ofComment u c = .ok b) :
    ∃ first last head tail, Checked u c first last head tail ∧
      b.replaced = spanned u c ∧ b.start = c.startLine - 1 ∧ b.indent = first.indent ∧
      b.eol = (b.lines.headD []).eol ∧
      ((c.startLine = c.endLine ∧ first.indent.length + opening.length ≤ head.length ∧
          b.lines = unfoldedLines first.indent (eolNear u first) head (tail ++ last.eol)) ∨
        (c.startLine ≠ c.endLine ∧
          Line.ofComment (spanned u c).flatten c.startLine = .ok b.lines)) := by
  have hReads := reads_ofComment u c
  rw [h] at hReads
  cases hReads with
  | found hChecked hReplaced hStart hIndent hEol hLines =>
    exact ⟨_, _, _, _, hChecked, hReplaced, hStart, hIndent, hEol, hLines⟩

theorem Checked.exists_index {u : SourceUnit} {c : DocComment} {first last : Line}
    {head tail : List Char} (h : Checked u c first last head tail) :
    ∃ i j, c.startLine = i + 1 ∧ c.endLine = j + 1 ∧ i ≤ j ∧ u.lines[i]? = some first ∧
      u.lines[j]? = some last := by
  obtain ⟨i, hi, hFirst⟩ := SourceUnit.exists_of_line?_eq_some h.starts
  obtain ⟨j, hj, hLast⟩ := SourceUnit.exists_of_line?_eq_some h.ends
  exact ⟨i, j, hi, hj, by have := h.ordered; omega, hFirst, hLast⟩

theorem Checked.line_eq {u : SourceUnit} {c : DocComment} {first last : Line}
    {head tail : List Char} (h : Checked u c first last head tail) :
    last = head ++ closing ++ (tail ++ last.eol) := by
  rw [← List.append_assoc, ← Text.eq_of_cutLast? h.cut, Line.content_append_eol]

theorem Checked.cutLast?_line {u : SourceUnit} {c : DocComment} {first last : Line}
    {head tail : List Char} (h : Checked u c first last head tail) :
    Text.cutLast? closing last = some (head, tail ++ last.eol) := by
  have hEnd : Text.isBlankText last.eol = true := by
    rcases Line.eol_eq_nil_or_isEol last with h | h | h <;> rw [h] <;> decide
  have hTail : Text.isBlankText (tail ++ last.eol) = true := by
    rw [Text.isBlankText, List.all_append, Bool.and_eq_true]
    exact ⟨h.blank, hEnd⟩
  have hClosing := cutLast?_closing head hTail
  rwa [← h.line_eq] at hClosing

theorem exists_replaced_cons {u : SourceUnit} {c : DocComment} {b : DocBlock}
    (h : ofComment u c = .ok b) :
    ∃ first more, b.replaced = first :: more ∧ b.indent = first.indent ∧ Opens first.indent first := by
  obtain ⟨first, _, _, _, hChecked, hReplaced, _, hIndent, _⟩ := ofComment_eq_ok h
  obtain ⟨i, j, hi, hj, hij, hFirst, _⟩ := hChecked.exists_index
  obtain ⟨hLess, rfl⟩ := List.getElem?_eq_some_iff.mp hFirst
  have hSpan : spanned u c = u.lines[i] :: (u.lines.drop (i + 1)).take (j - i) := by
    rw [spanned, hi, hj, Nat.add_sub_cancel, List.drop_eq_getElem_cons hLess, Nat.succ_sub hij,
      List.take_succ_cons]
  exact ⟨_, _, hReplaced.trans hSpan, hIndent, hChecked.opens⟩

/-- A class has its block from a comment on one line, from one on several lines or from no comment. -/
inductive Located (u : SourceUnit) (cls : ClassNode) (b : DocBlock) : Prop
  | single {c : DocComment} (comment : cls.docComment = some c) (block : ofComment u c = .ok b)
    (single : c.startLine = c.endLine)
  | several {c : DocComment} (comment : cls.docComment = some c) (block : ofComment u c = .ok b)
    (several : c.startLine ≠ c.endLine)
  | bare (comment : cls.docComment = none) (block : blank u cls.startLine = .ok b)

theorem located_of_locate {u : SourceUnit} {cls : ClassNode} {b : DocBlock}
    (h : locate u cls = .ok b) : Located u cls b := by
  unfold locate at h
  split at h
  next c hComment =>
    by_cases hSingle : c.startLine = c.endLine
    · exact .single hComment h hSingle
    · exact .several hComment h hSingle
  next hComment => exact .bare hComment h

/-- The lines that the block of a class stands for: those of its comment, or none above its first. -/
structure Spans (b : DocBlock) (u : SourceUnit) (cls : ClassNode) : Prop where
  inside : b.start < u.lines.length
  stop : b.start + b.replaced.length ≤ u.lines.length
  comment : ∀ c ∈ cls.docComment, b.start + 1 = c.startLine ∧ b.start + b.replaced.length = c.endLine
  bare : cls.docComment = none → b.start + 1 = cls.startLine ∧ b.replaced = []

theorem spans_of_locate {u : SourceUnit} {cls : ClassNode} {b : DocBlock}
    (h : locate u cls = .ok b) : b.Spans u cls := by
  unfold locate at h
  cases hComment : cls.docComment with
  | some c =>
    rw [hComment] at h
    obtain ⟨_, _, _, _, hChecked, hReplaced, hStart, _⟩ := ofComment_eq_ok h
    obtain ⟨i, j, hi, hj, hij, _, hLast⟩ := hChecked.exists_index
    have hInside := (List.getElem?_eq_some_iff.mp hLast).1
    have hLength : b.replaced.length = j + 1 - i := by
      rw [hReplaced, spanned, List.length_take, List.length_drop]
      omega
    refine ⟨by omega, by omega, ?_, by simp [hComment]⟩
    intro d hd
    obtain rfl : c = d := by simpa [hComment] using hd
    omega
  | none =>
    rw [hComment] at h
    obtain ⟨_, hLine, rfl⟩ := blank_eq_ok_iff.mp h
    obtain ⟨k, hk, hSome⟩ := SourceUnit.exists_of_line?_eq_some hLine
    have hInside := (List.getElem?_eq_some_iff.mp hSome).1
    have hStart : cls.startLine - 1 = k := by omega
    refine ⟨hStart ▸ hInside, ?_, by simp [hComment],
      fun _ => ⟨Nat.sub_add_cancel (by omega), rfl⟩⟩
    simpa [hStart] using hInside.le

theorem whole_or_free {ls : List Line} (h : Line.AreCut ls) {l : Line} (hl : l ∈ ls) :
    Line.Whole l ∨ '\n' ∉ l := by
  obtain ⟨above, below, rfl⟩ := List.append_of_mem hl
  have hRest : Line.AreCut (l :: below) := by simpa using h.drop above.length
  exact (Line.areCut_cons hRest).2.2.imp_right And.right

/-- A comment on one line: what stands before the closing sign is the opening line, and what
stands after it ends the closing line. -/
theorem ofComment_of_single {u : SourceUnit} {c : DocComment} {b : DocBlock}
    (h : ofComment u c = .ok b) (hSingle : c.startLine = c.endLine) :
    ∃ line head tail, Checked u c line line head tail ∧ b.StandsIn u ∧ b.replaced = [line] ∧
      b.start + 1 = c.startLine ∧ b.indent = line.indent ∧
      line.indent.length + opening.length ≤ head.length ∧
      b.lines = unfoldedLines line.indent (eolNear u line) head (tail ++ line.eol) ∧
      b.eol = Line.eol (head ++ eolNear u line) := by
  obtain ⟨first, last, head, tail, hChecked, hReplaced, hStart, hIndent, hEol, hForm⟩ :=
    ofComment_eq_ok h
  obtain ⟨i, j, hi, hj, _, hFirst, hLast⟩ := hChecked.exists_index
  obtain rfl : i = j := by omega
  obtain rfl : first = last := Option.some.inj (hFirst.symm.trans hLast)
  obtain ⟨_, hLong, hLines⟩ : _ ∧ _ ∧ _ := hForm.resolve_right fun hMany => hMany.1 hSingle
  have hSplit := Line.take_append_getElem?_append_drop hFirst
  have hSpan : spanned u c = [first] := by
    obtain ⟨hLt, rfl⟩ := List.getElem?_eq_some_iff.mp hFirst
    rw [spanned, hi, hj, Nat.add_sub_cancel, Nat.add_sub_cancel_left,
      List.drop_eq_getElem_cons hLt, List.take_one, List.head?_cons, Option.toList_some]
  refine ⟨first, head, tail, hChecked, ?_, hReplaced.trans hSpan, by omega, hIndent, hLong, hLines,
    ?_⟩
  · refine ⟨u.lines.take i, u.lines.drop (i + 1), ?_, ?_⟩
    · have hLt := (List.getElem?_eq_some_iff.mp hFirst).1
      rw [List.length_take, hStart]
      omega
    · rw [hReplaced, hSpan, List.append_assoc]
      exact hSplit
  · rw [hEol, hLines]
    rfl

/-- A comment on several lines: the lines stay as they are, but for a missing end of the last. -/
theorem ofComment_of_several {u : SourceUnit} {c : DocComment} {b : DocBlock}
    (hCut : Line.AreCut u.lines) (h : ofComment u c = .ok b) (hSeveral : c.startLine ≠ c.endLine) :
    ∃ first middle last head tail, Checked u c first last head tail ∧ b.StandsIn u ∧
      b.replaced = first :: (middle ++ [last]) ∧ b.start + 1 = c.startLine ∧
      b.start + b.replaced.length = c.endLine ∧ b.indent = first.indent ∧ b.eol = first.eol ∧
      b.lines = first :: (middle ++ [if last.eol.isEmpty then last ++ first.eol else last]) := by
  obtain ⟨first, last, head, tail, hChecked, hReplaced, hStart, hIndent, hEol, hForm⟩ :=
    ofComment_eq_ok h
  obtain ⟨i, j, hi, hj, hij, hFirst, hLast⟩ := hChecked.exists_index
  obtain ⟨_, hLines⟩ : _ ∧ _ := hForm.resolve_left fun hSingle => hSeveral hSingle.1
  obtain ⟨middle, hSlice, hSplit⟩ := Line.exists_between hFirst hLast (by omega)
  have hSpan : spanned u c = first :: (middle ++ [last]) := by
    rw [spanned, hi, hj, Nat.add_sub_cancel, hSlice]
  have hLength : (spanned u c).length = j + 1 - i := by
    have hLt := (List.getElem?_eq_some_iff.mp hLast).1
    rw [spanned, hi, hj, List.length_take, List.length_drop]
    omega
  have hSpanCut : Line.AreCut (first :: (middle ++ [last])) := by
    rw [← hSpan, spanned]
    exact (hCut.drop _).take _
  rw [hSpan, Line.ofComment_flatten hSpanCut] at hLines
  have hShape := (Except.ok.inj hLines).symm
  refine ⟨first, middle, last, head, tail, hChecked, ?_, hReplaced.trans hSpan, by omega, ?_,
    hIndent, ?_, hShape⟩
  · refine ⟨u.lines.take i, u.lines.drop (j + 1), ?_, ?_⟩
    · have hLt := (List.getElem?_eq_some_iff.mp hFirst).1
      rw [List.length_take, hStart]
      omega
    · rw [hReplaced, hSpan]
      exact hSplit
  · rw [hReplaced, hLength]
    omega
  · rw [hEol, hShape]
    rfl

theorem whole_closingLine {indent tail eol : List Char} (hIndent : '\n' ∉ indent)
    (hTail : Text.isBlankText tail = true) (hFree : '\n' ∉ tail) (hEol : Line.IsEol eol) :
    Line.Whole (closingLine indent ++ tail ++ eol) ∧ Closes (closingLine indent ++ tail ++ eol) := by
  constructor
  · apply hEol.whole.append
    simp [closingLine, closing, hIndent, hFree]
  · have hCloses := closes_append (indent ++ [' ']) hTail hEol
    simpa [closingLine] using hCloses

theorem eol_append_toIsEol {tail eol near : List Char} (hFree : '\n' ∉ tail)
    (hEol : eol = [] ∨ Line.IsEol eol) :
    tail ++ eol ++ (if (Line.eol (tail ++ eol)).isEmpty then near else []) =
      tail ++ (if eol.isEmpty then near else eol) := by
  rcases hEol with rfl | hEol
  · simp [Line.eol_eq_nil hFree]
  · have hSome : Line.eol (tail ++ eol) ≠ [] := by
      rcases hEol with rfl | rfl
      · exact (Line.isEol_eol_append_feed tail).ne_nil
      · have hTwo := Line.isEol_eol_append_feed (tail ++ ['\r'])
        rw [List.append_assoc] at hTwo
        exact hTwo.ne_nil
    simp [hSome, hEol.ne_nil]

/-- Both lines of a comment that is taken apart end as a new line would at this place. -/
theorem unfoldedLines_eq {u : SourceUnit} {line : Line} {indent head tail : List Char}
    (hTail : '\n' ∉ tail) : unfoldedLines indent (eolNear u line) head (tail ++ line.eol) =
      [head ++ eolNear u line, closingLine indent ++ tail ++ eolNear u line] := by
  have hNear : (if line.eol.isEmpty then eolNear u line else line.eol) = eolNear u line := by
    unfold eolNear
    split <;> rfl
  rw [unfoldedLines, List.append_assoc (closingLine _) (tail ++ line.eol),
    eol_append_toIsEol hTail (Line.eol_eq_nil_or_isEol line), hNear, List.append_assoc]

theorem framed_of_blank {u : SourceUnit} {n : Nat} {b : DocBlock} (h : blank u n = .ok b) :
    b.StandsIn u ∧ b.replaced = [] ∧ b.start + 1 = n ∧
      Framed b (b.indent ++ opening ++ b.eol) [] (closingLine b.indent ++ b.eol) := by
  obtain ⟨line, hLine, rfl⟩ := blank_eq_ok_iff.mp h
  obtain ⟨k, rfl, hk⟩ := SourceUnit.exists_of_line?_eq_some hLine
  have hEol := u.isEol_eolNear line
  have hOpens : Opens line.indent (line.indent ++ opening ++ eolNear u line) :=
    ⟨fun c hc => Line.isIndent_of_mem_indent hc, _, rfl⟩
  have hFree : '\n' ∉ line.indent := hOpens.not_mem (by decide)
  have hClosing := whole_closingLine hFree (rfl : Text.isBlankText [] = true) (by simp) hEol
  rw [List.append_nil] at hClosing
  refine ⟨⟨u.lines.take k, u.lines.drop k, ?_, by simp⟩, rfl, rfl,
    ⟨rfl, ?_, hOpens, ?_, hClosing.2⟩⟩
  · have hLt := (List.getElem?_eq_some_iff.mp hk).1
    simp
    omega
  · intro l hl
    simp only [List.mem_cons, List.not_mem_nil, or_false] at hl
    rcases hl with rfl | rfl
    · apply hEol.whole.append
      simp [opening, hFree]
    · exact hClosing.1
  · rw [Line.eol_append_isEol hEol (by simp [opening])]

/-- What stands before the closing sign opens the comment, if it holds the whole opening sign. -/
theorem Checked.opens_head {u : SourceUnit} {c : DocComment} {line : Line} {head tail : List Char}
    (h : Checked u c line line head tail) (hLong : line.indent.length + opening.length ≤ head.length)
    (eol : List Char) : Opens line.indent (head ++ eol) := by
  have hContent : line.content = head ++ (closing ++ tail) := by
    rw [← List.append_assoc]
    exact Text.eq_of_cutLast? h.cut
  obtain ⟨rest, hOpening⟩ := h.opens.content
  obtain ⟨s, hs⟩ : line.indent ++ opening <+: head :=
    List.prefix_of_prefix_length_le (⟨rest, hOpening.symm⟩ : _ <+: line.content)
      ⟨closing ++ tail, hContent.symm⟩ (by simpa using hLong)
  exact ⟨h.opens.1, s ++ eol, by rw [← hs, List.append_assoc]⟩

/-- The last line of a comment closes it, also once a missing end has been added. -/
theorem Checked.closes_last {u : SourceUnit} {c : DocComment} {first last : Line}
    {head tail eol : List Char} (h : Checked u c first last head tail) (hEol : Line.IsEol eol)
    (hKind : Line.Whole last ∨ '\n' ∉ last) :
    Line.Whole (if last.eol.isEmpty then last ++ eol else last) ∧
      Closes (if last.eol.isEmpty then last ++ eol else last) := by
  rcases hKind with hWhole | hFree
  · rw [if_neg (by simp [hWhole.isEol.ne_nil])]
    exact ⟨hWhole, head, tail, h.cut, h.blank⟩
  · have hNil := Line.eol_eq_nil hFree
    have hLine : last = head ++ closing ++ tail := by
      simpa [hNil] using h.line_eq
    rw [if_pos (by simp [hNil])]
    refine ⟨hEol.whole.append hFree, ?_⟩
    rw [hLine]
    exact closes_append head h.blank hEol

theorem framed_of_single {u : SourceUnit} {c : DocComment} {b : DocBlock}
    (hCut : Line.AreCut u.lines) (h : ofComment u c = .ok b) (hSingle : c.startLine = c.endLine) :
    b.StandsIn u ∧ ∃ first middle last, Framed b first middle last := by
  obtain ⟨line, head, tail, hChecked, hStands, _, _, hIndent, hLong, hLines, hEol⟩ :=
    ofComment_of_single h hSingle
  obtain ⟨_, _, _, _, _, hMem, _⟩ := hChecked.exists_index
  have hContent : line.content = head ++ closing ++ tail := Text.eq_of_cutLast? hChecked.cut
  have hFeed : '\n' ∉ head ++ closing ++ tail :=
    hContent ▸ Line.not_mem_content (whole_or_free hCut (List.mem_of_getElem? hMem))
  simp only [List.mem_append, not_or] at hFeed
  obtain ⟨⟨hHead, _⟩, hTail⟩ := hFeed
  have hNear := u.isEol_eolNear line
  have hClosing := whole_closingLine (hChecked.opens.not_mem (c := '\n') (by decide))
    hChecked.blank hTail hNear
  have hTwo := hLines.trans (unfoldedLines_eq hTail)
  refine ⟨hStands, _, [], _, hTwo, ?_, hIndent ▸ hChecked.opens_head hLong _, hEol, hClosing.2⟩
  intro l hl
  simp only [hTwo, List.mem_cons, List.not_mem_nil, or_false] at hl
  rcases hl with rfl | rfl
  · exact hNear.whole.append hHead
  · exact hClosing.1

theorem framed_of_several {u : SourceUnit} {c : DocComment} {b : DocBlock}
    (hCut : Line.AreCut u.lines) (h : ofComment u c = .ok b) (hSeveral : c.startLine ≠ c.endLine) :
    b.StandsIn u ∧ ∃ first middle last, Framed b first middle last := by
  obtain ⟨first, middle, last, head, tail, hChecked, hStands, hReplaced, _, _, hIndent, hEol,
    hLines⟩ := ofComment_of_several hCut h hSeveral
  obtain ⟨above, below, hAbove, hUnit⟩ := hStands
  have hRest : Line.AreCut (first :: (middle ++ [last]) ++ below) := by
    rw [← hReplaced]
    have hDrop := hCut.drop above.length
    rwa [hUnit, List.append_assoc, List.drop_left] at hDrop
  have hInit : ∀ l ∈ first :: middle, Line.Whole l := by
    have hSplit : Line.AreCut ((first :: middle) ++ last :: below) := by simpa using hRest
    exact hSplit.whole_of_append (by simp)
  have hLast := hChecked.closes_last (hInit first List.mem_cons_self).isEol
    (whole_or_free hRest (by simp))
  refine ⟨⟨above, below, hAbove, hUnit⟩, first, middle, _, hLines, ?_, hIndent ▸ hChecked.opens, hEol,
    hLast.2⟩
  intro l hl
  rw [hLines, ← List.cons_append] at hl
  rcases List.mem_append.mp hl with hl | hl
  · exact hInit l hl
  · obtain rfl := List.mem_singleton.mp hl
    exact hLast.1

theorem framed_of_ofComment {u : SourceUnit} {c : DocComment} {b : DocBlock}
    (hCut : Line.AreCut u.lines) (h : ofComment u c = .ok b) :
    b.StandsIn u ∧ ∃ first middle last, Framed b first middle last := by
  by_cases hSingle : c.startLine = c.endLine
  · exact framed_of_single hCut h hSingle
  · exact framed_of_several hCut h hSingle

theorem framed_of_locate {u : SourceUnit} {cls : ClassNode} {b : DocBlock}
    (hCut : Line.AreCut u.lines) (h : locate u cls = .ok b) :
    b.StandsIn u ∧ ∃ first middle last, Framed b first middle last := by
  cases located_of_locate h with
  | single _ hBlock hSingle => exact framed_of_single hCut hBlock hSingle
  | several _ hBlock hSeveral => exact framed_of_several hCut hBlock hSeveral
  | bare _ hBlock =>
    obtain ⟨hStands, _, _, hFramed⟩ := framed_of_blank hBlock
    exact ⟨hStands, _, _, _, hFramed⟩

/-- The same block as one that stands for other lines. -/
def movedTo (b : DocBlock) (replaced : List Line) (start : Nat) : DocBlock :=
  { b with replaced := replaced, start := start }

/-- A framed block whose lines stand in a file is found there. -/
theorem Framed.ofComment_eq {b : DocBlock} {first last : Line} {middle : List Line}
    (h : Framed b first middle last) {u : SourceUnit} {above below : List Line}
    (hUnit : u.lines = above ++ b.lines ++ below) :
    ofComment u ⟨above.length + 1, above.length + b.lines.length⟩ =
      .ok (b.movedTo b.lines above.length) := by
  obtain ⟨head, tail, hCut, hBlank⟩ := h.closes
  have hFirst : u.line? (above.length + 1) = some first := by
    rw [SourceUnit.line?_succ, hUnit, List.append_assoc, h.lines]
    simp
  have hLast : u.line? (above.length + b.lines.length) = some last := by
    have hLength : above.length + b.lines.length = (above ++ first :: middle).length + 1 := by
      simp [h.lines]
      omega
    have hSplit : u.lines = (above ++ first :: middle) ++ last :: below := by
      simp [hUnit, h.lines]
    rw [hLength, SourceUnit.line?_succ, hSplit, List.getElem?_append_right (Nat.le_refl _)]
    simp
  have hSpan : (u.lines.drop above.length).take b.lines.length = b.lines := by
    rw [hUnit, List.append_assoc, List.drop_left, List.take_left]
  have hMany : 2 ≤ b.lines.length := by simp [h.lines]
  have hCutLines : Line.AreCut (first :: (middle ++ [last])) :=
    h.lines ▸ Line.areCut_of_whole h.whole
  have hText := Line.ofComment_flatten hCutLines (above.length + 1)
  have hWhole : Line.Whole last := h.whole last (by simp [h.lines])
  rw [if_neg (by simp [hWhole.isEol.ne_nil]), ← h.lines] at hText
  simp only [ofComment, hFirst, hLast, hCut, hBlank, h.opens.isPrefixOf, hSpan, hText,
    Nat.add_sub_cancel, Nat.add_sub_cancel_left]
  rw [if_neg (by omega), if_neg (by simp), if_neg (by simp), if_neg]
  · simp [Except.map, movedTo, h.opens.indent_eq, h.eol, h.lines]
  · simp [DocComment.isSingleLine]
    omega

theorem Framed.locate_eq {b : DocBlock} {first last : Line} {middle : List Line}
    (h : Framed b first middle last) {u : SourceUnit} {above below : List Line}
    (hUnit : u.lines = above ++ b.lines ++ below) {cls : ClassNode}
    (hDoc : cls.docComment = some ⟨above.length + 1, above.length + b.lines.length⟩) :
    locate u cls = .ok (b.movedTo b.lines above.length) := by
  unfold locate
  rw [hDoc]
  exact h.ofComment_eq hUnit

end DocBlock

end DocWiring
