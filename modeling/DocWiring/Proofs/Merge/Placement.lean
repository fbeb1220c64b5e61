import DocWiring.Proofs.Merge.Idempotence
import DocWiring.Proofs.Php.Comment
import DocWiring.Proofs.Php.Room

/-! # The block of a class that stands alone

The lines that a patch replaces before a class that stands alone lie in white space before the class.
With the new lines in their place, there is a doc comment in that white space and nothing else.
-/

namespace DocWiring.Merge

open DocBlock Php

/-- The block that is found for a class, and the one that the class should have. -/
structure Fit where
  found : DocBlock
  final : DocBlock

namespace Fit

def patch (f : Fit) : Patch :=
  ⟨f.found.start, f.found.replaced.length, f.final.lines⟩

/-- The nodes `new` before a class say what the nodes `old` say, but for the lines of the block.  The
text `x` comes before these lines, and the text `y` after them. -/
structure Fills (f : Fit) (s : Site) (front old new near : List Node) (x y : List Char) : Prop where
  before : s.before = near.reverse ++ (old.reverse ++ front.reverse)
  exchange : Exchange old new
  loose : ∀ n ∈ near, n.isLoose = true ∧ n.isDoc = false
  text : Node.textAll old = x ++ '\n' :: (f.found.replaced.flatten ++ y)
  text' : Node.textAll new = x ++ '\n' :: (f.final.lines.flatten ++ y)
  start : f.found.start = s.base + feeds front + lineBreaks x + 1
  doc : leadingDoc? s.base (new.reverse ++ front.reverse) =
    some ⟨f.found.start + 1, f.found.start + f.final.lines.length⟩

/-- The lines of the new block take the place of the old ones in white space before a class. -/
structure Into (f : Fit) (s : Site) : Prop where
  fills : ∃ front old new near x y, f.Fills s front old new near x y
  whole : ∀ l ∈ f.found.replaced, Line.Whole l
  framed : ∃ first middle last, Framed f.final first middle last

end Fit

theorem isSpace_of_isIndent {c : Char} (h : Line.isIndent c = true) : isSpace c = true := by
  rcases Line.isIndent_iff.mp h with rfl | rfl <;> decide

/-- Whole lines of a text stand in the file where the text stands. -/
theorem exists_slice {u : SourceUnit} (hCut : Line.AreCut u.lines) {above old r : List Char}
    (hText : u.text = above ++ '\n' :: (old ++ '\n' :: r)) :
    ∃ lines, lines.flatten = old ++ ['\n'] ∧ (∀ l ∈ lines, Line.Whole l) ∧
      (u.lines.drop (lineBreaks above + 1)).take (lineBreaks old + 1) = lines := by
  obtain ⟨ls, _, _, hLength, hAbove⟩ := Line.exists_lines_feed above
  obtain ⟨ms, hWhole, hFlat, hCount, hOld⟩ := Line.exists_lines_feed old
  refine ⟨ms, hFlat, hWhole, ?_⟩
  have hLines : u.lines = ls ++ (ms ++ Line.ofText r) := by
    rw [← hCut, ← hOld, ← hAbove]
    exact congrArg Line.ofText hText
  have hFirst : lineBreaks above + 1 = ls.length := hLength.symm
  have hSecond : lineBreaks old + 1 = ms.length := hCount.symm
  rw [hLines, hFirst, hSecond, List.drop_left, List.take_left]

section

variable {u : SourceUnit} {s : Site} {b : DocBlock} {root : Node} {annotations : List Annotation}
  {front old near : List Node} {x y : List Char}

/-- The block of a comment on lines of its own stands for these lines. -/
theorem replaced_of_ofComment {c : DocComment} {above old r : List Char} (hCut : Line.AreCut u.lines)
    (h : ofComment u c = .ok b) (hText : u.text = above ++ '\n' :: (old ++ '\n' :: r))
    (hFirst : c.startLine = lineBreaks above + 2) (hLast : c.endLine = c.startLine + lineBreaks old) :
    b.start = lineBreaks above + 1 ∧ b.replaced.flatten = old ++ ['\n'] ∧
      ∀ l ∈ b.replaced, Line.Whole l := by
  obtain ⟨_, _, _, _, _, hReplaced, hStart, _⟩ := ofComment_eq_ok h
  obtain ⟨lines, hFlat, hWhole, hSlice⟩ := exists_slice hCut hText
  have hDrop : c.startLine - 1 = lineBreaks above + 1 := by omega
  have hTake : c.endLine - (c.startLine - 1) = lineBreaks old + 1 := by omega
  obtain rfl : b.replaced = lines := by rw [hReplaced, ← hSlice, spanned, hTake, hDrop]
  exact ⟨hStart.trans hDrop, hFlat, hWhole⟩

/-- A doc comment with white space before and after it. -/
theorem leadingDoc?_own {text z : List Char} (hDoc : isDocText text = true) (hFree : '\n' ∉ z)
    (base : Nat) (front : List Node) (x after : List Char) :
    leadingDoc? base (.gap after :: .leaf .comment text :: .gap (x ++ '\n' :: z) :: front.reverse) =
      some ⟨base + feeds front + lineBreaks x + 2, base + feeds front + lineBreaks x + 2 + lineBreaks text⟩ := by
  have hLeaf : (Node.leaf .comment text).isDoc = true := hDoc
  have hAbove : feeds (.gap (x ++ '\n' :: z) :: front.reverse) = feeds front + lineBreaks x + 1 := by
    rw [feeds_cons, feeds_reverse, Node.text, lineBreaks_append, lineBreaks_cons_feed,
      lineBreaks_eq_zero hFree]
    omega
  rw [leadingDoc?_cons_loose rfl rfl, leadingDoc?_cons_doc hLeaf, feeds_cons (.leaf _ _), hAbove, Node.text]
  congr 2 <;> omega

/-- The lines of a block are one doc comment on lines of its own. -/
theorem Fit.exists_fills {f : Fit} {z body tail : List Char}
    (hBefore : s.before = near.reverse ++ (old.reverse ++ front.reverse))
    (hLoose : ∀ n ∈ near, n.isLoose = true ∧ n.isDoc = false)
    (hText : Node.textAll old = x ++ '\n' :: (f.found.replaced.flatten ++ y))
    (hStart : f.found.start = s.base + feeds front + lineBreaks x + 1)
    (hFinal : f.final.lines.flatten = z ++ '/' :: '*' :: (body ++ closing) ++ tail)
    (hWhole : ∀ l ∈ f.final.lines, Line.Whole l) (hIndent : '\n' ∉ z) (hStar : body.head? = some '*')
    (hBody : Unclosed body) (hTail : Line.Whole tail)
    (hExchange : ∀ t, tail = t ++ ['\n'] → Exchange old [.gap (x ++ '\n' :: z),
      .leaf .comment ('/' :: '*' :: (body ++ closing)), .gap (t ++ '\n' :: y)]) :
    ∃ new, f.Fills s front old new near x y := by
  obtain ⟨t, hFree, rfl⟩ := hTail
  have hBlank : lineBreaks z = 0 := lineBreaks_eq_zero hIndent
  have hLength : f.final.lines.length = lineBreaks ('/' :: '*' :: (body ++ closing)) + 1 := by
    have hCount : lineBreaks f.final.lines.flatten = f.final.lines.length := Line.count_flatten hWhole
    rw [hFinal, lineBreaks_append, lineBreaks_append, lineBreaks_append, hBlank,
      lineBreaks_eq_zero hFree] at hCount
    rw [← hCount, Nat.zero_add, Nat.zero_add]
    rfl
  refine ⟨_, hBefore, hExchange t rfl, hLoose, hText, ?_, hStart, ?_⟩
  · rw [hFinal]
    simp [Node.text]
  · change leadingDoc? s.base (.gap (t ++ '\n' :: y) :: .leaf .comment ('/' :: '*' :: (body ++ closing)) ::
      .gap (x ++ '\n' :: z) :: front.reverse) = _
    rw [leadingDoc?_own (isDocText_of_unclosed hBody hStar) hIndent, hLength, hStart]
    congr 2
    omega

/-- Without a doc comment, the lines of the block come after the last end of line. -/
theorem fills_of_bare {remove : Bool} (h : Bare s.before front near x y)
    (hLocate : locate u s.toClass = .ok b) (hAnn : ∀ a ∈ annotations, a.Wordy)
    (hWhole : ∀ l ∈ (annotations.foldl insert (base remove b)).lines, Line.Whole l) :
    (∃ new, Fit.Fills ⟨b, annotations.foldl insert (base remove b)⟩ s front [.gap (x ++ '\n' :: y)] new
      near x y) ∧ ∀ l ∈ b.replaced, Line.Whole l := by
  have hDoc : s.toClass.docComment = none := h.missing _
  rw [locate, hDoc] at hLocate
  obtain ⟨_, hReplaced, hStart, hFramed⟩ := framed_of_blank hLocate
  obtain ⟨body, tail, hFinal, hStar, hBody, hTail, hEnds⟩ :=
    exists_body_of_final ⟨_, _, _, hFramed⟩ ⟨_, _, _, sealed_of_blank hLocate⟩ hAnn
  have hIndent : ∀ c ∈ b.indent, isSpace c = true := fun c hc =>
    isSpace_of_isIndent (hFramed.opens.1 c hc)
  have hRow : s.row = s.base + feeds front + lineBreaks x + 1 := by
    have hLast := h.last
    rw [List.mem_append, not_or] at hLast
    have hNear : feeds near = 0 := by rw [← Node.lineBreaks_textAll, lineBreaks_eq_zero hLast.2]
    rw [Site.row, h.split, feeds_append, feeds_cons, feeds_reverse, feeds_reverse, hNear, Node.text,
      lineBreaks_append, lineBreaks_cons_feed, lineBreaks_eq_zero hLast.1]
    omega
  refine ⟨Fit.exists_fills h.split h.loose ?_ ?_ hFinal hWhole hFramed.not_mem_indent hStar hBody hEnds ?_,
    by simp [hReplaced]⟩
  · simp [hReplaced, Node.text]
  · have hLine : b.start + 1 = s.row + 1 := hStart
    dsimp only
    omega
  · rintro t rfl
    refine .put ?_ hBody
    intro c hc
    rcases List.mem_append.mp hc with hc | hc
    · exact h.white c hc
    · rcases List.mem_append.mp hc with hc | hc
      · exact hIndent c hc
      · exact hTail c (List.mem_append_left _ hc)

/-- The siblings before a class stand in the text of the tree. -/
theorem exists_at_of_mem_sites (hSite : s ∈ root.sites 0 []) (hNil : s.before ≠ []) :
    ∃ text label node back, root.At text (.branch label (s.before.reverse ++ node :: back)) ∧
      s.base = lineBreaks text := by
  obtain ⟨p, hPlace, _, hBase, hBefore⟩ := Node.mem_sites_iff.mp hSite
  rcases Node.eq_or_lies_of_mem hPlace with rfl | ⟨text, label, back, hAt, hLines⟩
  · exact absurd hBefore.symm hNil
  · rw [hBefore] at hAt
    exact ⟨text, label, p.node, back, hAt, hBase.symm.trans hLines⟩

/-- A doc comment on lines of its own is the block that is found, with these lines. -/
theorem exists_commented {z t text : List Char} (hCut : Line.AreCut u.lines) (hRoot : root.text = u.text)
    (hRegular : root.Regular) (hSite : s ∈ root.sites 0 []) (h : Around s.before front near x z t y text)
    (hLocate : locate u s.toClass = .ok b) :
    b.start = s.base + feeds front + lineBreaks x + 1 ∧ b.replaced.flatten = z ++ text ++ t ++ ['\n'] ∧
      (∀ l ∈ b.replaced, Line.Whole l) ∧
      ∃ c body, ofComment u c = .ok b ∧ Commented b.replaced.flatten z body (t ++ ['\n']) := by
  obtain ⟨r, hOpening⟩ := exists_of_isDocText h.doc
  obtain ⟨before, label, node, back, hAt, hBase⟩ := exists_at_of_mem_sites hSite (by simp [h.split])
  -- The text of the comment is closed at its end only.
  have hClosed : Node.closesLast text = true := by
    refine (hRegular _ (Node.nodes_subset root hAt.mem_nodes (Node.part_mem_nodes ?_))).comment
      (n := .leaf .comment text) rfl
    simp [h.split]
  rw [hOpening] at hClosed
  obtain ⟨body, hBody, hUnclosed⟩ := exists_body_of_closesLast hClosed
  -- The comment stands on lines of its own, which the block stands for.
  obtain ⟨after, hText⟩ := hAt.exists_text
  have hUnit : u.text = before ++ (Node.textAll front ++ x) ++ '\n' :: (z ++ text ++ t ++
      '\n' :: (y ++ Node.textAll near ++ node.text ++ Node.textAll back ++ after)) := by
    rw [← hRoot, hText, h.split]
    simp [Node.text]
  have hLines : lineBreaks (before ++ (Node.textAll front ++ x)) = s.base + feeds front + lineBreaks x := by
    rw [lineBreaks_append, lineBreaks_append, Node.lineBreaks_textAll, ← hBase, Nat.add_assoc]
  have hCount : lineBreaks (z ++ text ++ t) = lineBreaks text := by
    rw [lineBreaks_append, lineBreaks_append, lineBreaks_eq_zero h.above, lineBreaks_eq_zero h.below,
      Nat.zero_add, Nat.add_zero]
  have hLeading : s.toClass.docComment = some ⟨s.base + feeds front + lineBreaks x + 2,
      s.base + feeds front + lineBreaks x + 2 + lineBreaks text⟩ := by
    have hNear : ∀ n ∈ near.reverse, n.isLoose = true ∧ n.isDoc = false :=
      fun n hn => h.loose n (List.mem_reverse.mp hn)
    change leadingDoc? s.base s.before = _
    rw [h.split, leadingDoc?_append_loose hNear, leadingDoc?_own h.doc h.above]
  rw [locate, hLeading] at hLocate
  obtain ⟨hStart, hFlat, hWhole⟩ := replaced_of_ofComment hCut hLocate hUnit (by rw [hLines])
    (by rw [hCount])
  have hSpace : ∀ c ∈ z, isSpace c = true := fun c hc => h.white c (by simp [hc])
  refine ⟨hStart.trans (congrArg (· + 1) hLines), hFlat, hWhole, _, body, hLocate, ?_,
    not_mem_of_isSpace hSpace (by decide), hUnclosed, ?_, t, h.below, rfl⟩
  · rw [hFlat, hOpening, hBody]
    simp
  · intro c hc
    rcases List.mem_append.mp hc with hc | hc
    · exact h.white c (by simp [hc])
    · rw [List.mem_singleton.mp hc]
      decide

/-- The lines of the new block take the place of those of a doc comment on lines of its own. -/
theorem fills_of_around {remove : Bool} {z t text : List Char} (hCut : Line.AreCut u.lines)
    (hRoot : root.text = u.text) (hRegular : root.Regular) (hSite : s ∈ root.sites 0 [])
    (h : Around s.before front near x z t y text) (hLocate : locate u s.toClass = .ok b)
    (hAnn : ∀ a ∈ annotations, a.Wordy)
    (hWhole : ∀ l ∈ (annotations.foldl insert (base remove b)).lines, Line.Whole l) :
    (∃ new, Fit.Fills ⟨b, annotations.foldl insert (base remove b)⟩ s front
      [.gap (x ++ '\n' :: z), .leaf .comment text, .gap (t ++ '\n' :: y)] new near x y) ∧
      ∀ l ∈ b.replaced, Line.Whole l := by
  obtain ⟨hStart, hFlat, hReplaced, c, body, hComment, hCommented⟩ :=
    exists_commented hCut hRoot hRegular hSite h hLocate
  obtain ⟨body', tail, hFinal, hStar, hBody, hTail, hEnds⟩ := exists_body_of_final
    (framed_of_ofComment hCut hComment).2 (sealed_of_ofComment hCut hComment hCommented) hAnn
  rw [indent_eq_of_commented hComment hCommented] at hFinal
  obtain ⟨r, hOpening⟩ := exists_of_isDocText h.doc
  refine ⟨Fit.exists_fills (by simp [h.split]) h.loose ?_ hStart hFinal hWhole h.above hStar hBody hEnds ?_,
    hReplaced⟩
  · rw [hFlat]
    simp [Node.text]
  · rintro t' rfl
    refine .swap ?_ ⟨'*' :: r, hOpening.symm⟩ hBody
    have hWhite := h.white
    intro c hc
    simp only [List.mem_append] at hc hWhite hTail
    rcases hc with ((hc | hc) | hc | hc) | hc | hc
    · exact hWhite c (.inl (.inl hc))
    · exact hWhite c (.inr (.inr hc))
    · exact hWhite c (.inl (.inr hc))
    · exact hWhite c (.inr (.inl hc))
    · exact hWhite c (.inl (.inr hc))
    · exact hTail c (.inl hc)

/-- The patch of a class that stands alone goes into the white space before it. -/
theorem into_of_room (hCut : Line.AreCut u.lines) (hRoot : root.text = u.text) (hRegular : root.Regular)
    (hSite : s ∈ root.sites 0 []) (hRoom : Room s.before) (hLocate : locate u s.toClass = .ok b)
    (hAnn : ∀ a ∈ annotations, a.Wordy) (remove : Bool) :
    Fit.Into ⟨b, annotations.foldl insert (base remove b)⟩ s := by
  obtain ⟨_, _, _, hBase⟩ := exists_framed_base remove (framed_of_locate hCut hLocate).2
  obtain ⟨_, hFinal⟩ := hBase.foldl_insert fun a ha => (hAnn a ha).legible.not_mem_saying
  cases hRoom with
  | bare h =>
    obtain ⟨⟨new, hFills⟩, hWhole⟩ := fills_of_bare h hLocate hAnn hFinal.whole
    exact ⟨⟨_, _, new, _, _, _, hFills⟩, hWhole, _, _, _, hFinal⟩
  | around h =>
    obtain ⟨⟨new, hFills⟩, hWhole⟩ :=
      fills_of_around hCut hRoot hRegular hSite h hLocate hAnn hFinal.whole
    exact ⟨⟨_, _, new, _, _, _, hFills⟩, hWhole, _, _, _, hFinal⟩

end

end DocWiring.Merge
