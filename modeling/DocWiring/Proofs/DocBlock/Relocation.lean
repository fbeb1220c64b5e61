import DocWiring.Proofs.DocBlock.Location

/-! # The block of a class in a changed file

The block of a class does not change, but for the line it starts on, when other lines of the file
change.
-/

namespace DocWiring

theorem Line.ofComment_line {t : List Char} {n : Nat} {ls : List Line}
    (h : Line.ofComment t n = .ok ls) (m : Nat) : Line.ofComment t m = .ok ls := by
  unfold Line.ofComment at h ⊢
  split at h
  · cases h
  · cases h
  · exact h

namespace DocBlock

variable {u u' : SourceUnit} {cls cls' : ClassNode} {b : DocBlock}

theorem eolNear_congr (h : u'.firstEol? = u.firstEol?) (l : Line) : eolNear u' l = eolNear u l := by
  rw [eolNear, eolNear, h]

/-- The same lines at another place give the same block. -/
theorem ofComment_moved {c c' : DocComment} (h : ofComment u c = .ok b)
    (hOrder : c.startLine ≤ c.endLine → c'.startLine ≤ c'.endLine)
    (hSingle : c'.startLine = c'.endLine ↔ c.startLine = c.endLine)
    (hStart : u'.line? c'.startLine = u.line? c.startLine)
    (hEnd : u'.line? c'.endLine = u.line? c.endLine) (hSpan : spanned u' c' = spanned u c)
    (hFirst : u'.firstEol? = u.firstEol?) :
    ofComment u' c' = .ok (b.movedTo b.replaced (c'.startLine - 1)) := by
  obtain ⟨first, last, head, tail, hChecked, hReplaced, _, hIndent, hEol, hForm⟩ := ofComment_eq_ok h
  have hOrdered := hOrder hChecked.ordered
  have hSlice : (u'.lines.drop (c'.startLine - 1)).take (c'.endLine - (c'.startLine - 1)) =
      b.replaced := hSpan.trans hReplaced.symm
  simp only [ofComment, hStart.trans hChecked.starts, hEnd.trans hChecked.ends, hChecked.cut,
    hChecked.blank, hChecked.opens.isPrefixOf, hSlice, eolNear_congr hFirst]
  rw [if_neg (by omega), if_neg (by simp), if_neg (by simp)]
  rcases hForm with ⟨hOne, hLong, hLines⟩ | ⟨hMany, hLines⟩
  · rw [if_pos (by simpa [DocComment.isSingleLine] using hSingle.mpr hOne), if_neg (by omega)]
    simp [movedTo, hIndent, hEol, hLines]
  · rw [if_neg (by simpa [DocComment.isSingleLine] using fun hOne => hMany (hSingle.mp hOne))]
    rw [← hReplaced] at hLines
    rw [Line.ofComment_line hLines c'.startLine]
    simp [Except.map, movedTo, hIndent, hEol]

theorem blank_moved {n n' : Nat} (h : blank u n = .ok b) (hLine : u'.line? n' = u.line? n)
    (hFirst : u'.firstEol? = u.firstEol?) :
    blank u' n' = .ok (b.movedTo b.replaced (n' - 1)) := by
  obtain ⟨line, hn, rfl⟩ := blank_eq_ok_iff.mp h
  rw [blank_eq_ok_iff]
  exact ⟨line, hLine.trans hn, by rw [eolNear_congr hFirst]; rfl⟩

/-- A block stays the same block wherever it stands. -/
def Moved (u : SourceUnit) (cls : ClassNode) (u' : SourceUnit) (cls' : ClassNode) : Prop :=
  ∀ b, locate u cls = .ok b → ∃ start, locate u' cls' = .ok (b.movedTo b.replaced start)

theorem Moved.refl (u : SourceUnit) (cls : ClassNode) : Moved u cls u cls :=
  fun b h => ⟨b.start, h⟩

theorem Moved.trans {v : SourceUnit} {c d e : ClassNode} {w : SourceUnit} (h : Moved u c v d)
    (h' : Moved v d w e) : Moved u c w e := by
  intro b hLocate
  obtain ⟨_, hMoved⟩ := h b hLocate
  obtain ⟨start, hAgain⟩ := h' _ hMoved
  exact ⟨start, hAgain⟩

theorem firstEol?_eq {l : Line} {ls : List Line} (hLines : u.lines = l :: ls) (hl : Line.Whole l) :
    u.firstEol? = some l.eol := by
  rw [SourceUnit.firstEol?, hLines, List.map_cons, List.find?_cons_of_pos]
  simpa using hl.isEol.ne_nil

section Above

variable {above rest rest' : List Line}

theorem line?_above (hLines : u.lines = above ++ rest) {n : Nat} (hn : n ≤ above.length) :
    u.line? n = (SourceUnit.ofLines above).line? n := by
  cases n with
  | zero => rfl
  | succ n =>
    rw [SourceUnit.line?_succ, SourceUnit.line?_succ, hLines]
    exact List.getElem?_append_left hn

theorem spanned_above (hLines : u.lines = above ++ rest) {c : DocComment}
    (hOrder : c.startLine ≤ c.endLine) (hEnd : c.endLine ≤ above.length) :
    spanned u c = spanned (.ofLines above) c := by
  unfold spanned
  rw [hLines, List.drop_append_of_le_length (by omega), List.take_append_of_le_length]
  · rfl
  · rw [List.length_drop]
    omega

theorem eolNear_above (hWhole : ∀ l ∈ above, Line.Whole l) {n : Nat} {l : Line}
    (h : (SourceUnit.ofLines above).line? n = some l) : eolNear u' l = eolNear u l := by
  obtain ⟨k, _, hk⟩ := SourceUnit.exists_of_line?_eq_some h
  have hSome : l.eol ≠ [] := (hWhole l (List.mem_of_getElem? hk)).isEol.ne_nil
  have hNot : ¬ l.eol.isEmpty = true := by simpa using hSome
  rw [eolNear, eolNear, if_neg hNot, if_neg hNot]

theorem ofComment_above (hWhole : ∀ l ∈ above, Line.Whole l) (hLines : u.lines = above ++ rest)
    (hLines' : u'.lines = above ++ rest') {c : DocComment} (hEnd : c.endLine ≤ above.length) :
    ofComment u' c = ofComment u c := by
  by_cases hReversed : c.endLine < c.startLine
  · rw [ofComment, ofComment, if_pos hReversed, if_pos hReversed]
  · have hOrder : c.startLine ≤ c.endLine := Nat.le_of_not_lt hReversed
    have hSpan : spanned u' c = spanned u c := by
      rw [spanned_above hLines hOrder hEnd, spanned_above hLines' hOrder hEnd]
    unfold spanned at hSpan
    rw [ofComment, ofComment, if_neg hReversed, if_neg hReversed,
      line?_above hLines (hOrder.trans hEnd), line?_above hLines' (hOrder.trans hEnd),
      line?_above hLines hEnd, line?_above hLines' hEnd]
    cases hFirst : (SourceUnit.ofLines above).line? c.startLine with
    | none => rfl
    | some first =>
      cases (SourceUnit.ofLines above).line? c.endLine with
      | none => rfl
      | some last =>
        have hEol : eolNear u' first = eolNear u first := eolNear_above hWhole hFirst
        simp only [hSpan, hEol]

/-- Lines further down do not matter. -/
theorem locate_above (hWhole : ∀ l ∈ above, Line.Whole l) (hLines : u.lines = above ++ rest)
    (hLines' : u'.lines = above ++ rest') (hStart : cls.startLine ≤ above.length)
    (hDoc : ∀ c, cls.docComment = some c → c.endLine ≤ above.length) :
    locate u' cls = locate u cls := by
  unfold locate
  cases hComment : cls.docComment with
  | some c => exact ofComment_above hWhole hLines hLines' (hDoc c hComment)
  | none =>
    dsimp only
    rw [blank, blank, line?_above hLines hStart, line?_above hLines' hStart]
    cases hLine : (SourceUnit.ofLines above).line? cls.startLine with
    | none => rfl
    | some line =>
      have hEol : eolNear u' line = eolNear u line := eolNear_above hWhole hLine
      simp only [hEol]

end Above

end DocBlock

def DocComment.down (k : Nat) (c : DocComment) : DocComment :=
  ⟨c.startLine + k, c.endLine + k⟩

def ClassNode.down (k : Nat) (cls : ClassNode) : ClassNode :=
  { cls with
    startLine := cls.startLine + k
    docComment := cls.docComment.map (DocComment.down k) }

namespace DocBlock

variable {u u' : SourceUnit} {cls : ClassNode} {front front' below : List Line}

theorem line?_below (hLines : u.lines = front ++ below) {n : Nat} (hn : 0 < n) :
    u.line? (n + front.length) = (SourceUnit.ofLines below).line? n := by
  obtain ⟨k, rfl⟩ := Nat.exists_eq_add_of_lt hn
  rw [Nat.zero_add, Nat.add_right_comm, SourceUnit.line?_succ, SourceUnit.line?_succ, hLines,
    List.getElem?_append_right (by omega), Nat.add_sub_cancel]
  rfl

theorem spanned_below (hLines : u.lines = front ++ below) {c : DocComment}
    (hStart : 0 < c.startLine) : spanned u (c.down front.length) = spanned (.ofLines below) c := by
  have hFirst : c.startLine + front.length - 1 = front.length + (c.startLine - 1) := by omega
  have hCount : c.endLine + front.length - (front.length + (c.startLine - 1)) =
      c.endLine - (c.startLine - 1) := by omega
  unfold spanned DocComment.down
  dsimp only
  rw [hFirst, hCount, hLines, ← List.drop_drop, List.drop_left]
  rfl

/-- Lines further up do not matter, as long as the first line ends in the same way. -/
theorem moved_below (hLines : u.lines = front ++ below) (hLines' : u'.lines = front' ++ below)
    (hFirst : u'.firstEol? = u.firstEol?) (hStart : 0 < cls.startLine)
    (hDoc : ∀ c, cls.docComment = some c → 0 < c.startLine) :
    Moved u (cls.down front.length) u' (cls.down front'.length) := by
  intro b h
  have hLine {n : Nat} (hn : 0 < n) : u'.line? (n + front'.length) = u.line? (n + front.length) := by
    rw [line?_below hLines hn, line?_below hLines' hn]
  unfold locate ClassNode.down at h ⊢
  dsimp only at h ⊢
  cases hComment : cls.docComment with
  | some c =>
    rw [hComment, Option.map_some] at h
    rw [Option.map_some]
    have hPos := hDoc c hComment
    obtain ⟨_, _, _, _, hChecked, _⟩ := ofComment_eq_ok h
    have hOrdered : c.startLine + front.length ≤ c.endLine + front.length := hChecked.ordered
    have hSpan : spanned u' (c.down front'.length) = spanned u (c.down front.length) := by
      rw [spanned_below hLines hPos, spanned_below hLines' hPos]
    refine ⟨_, ofComment_moved h ?_ ?_ (hLine hPos) (hLine (by omega)) hSpan hFirst⟩
    · intro _
      change c.startLine + front'.length ≤ c.endLine + front'.length
      omega
    · change c.startLine + front'.length = c.endLine + front'.length ↔
        c.startLine + front.length = c.endLine + front.length
      omega
  | none =>
    rw [hComment, Option.map_none] at h
    rw [Option.map_none]
    exact ⟨_, blank_moved h (hLine hStart) hFirst⟩

end DocBlock

end DocWiring
