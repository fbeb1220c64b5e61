import DocWiring.Proofs.Merge.Insertion
import DocWiring.Proofs.Patch

/-! # One end of line throughout

In a text with one end of line merging writes that end of line and no other, wherever a new line takes
it from: the line of the class, the first line of the comment, the first terminated line of the file or
the line that is written anew.
-/

namespace DocWiring

namespace Line

variable {eol s t : List Char} {l : Line} {ls : List Line}

def Unbroken (t : List Char) : Prop :=
  '\r' ∉ t ∧ '\n' ∉ t

theorem unbroken_append : Unbroken (s ++ t) ↔ Unbroken s ∧ Unbroken t := by
  simp only [Unbroken, List.mem_append, not_or]
  exact and_and_and_comm

theorem Unbroken.of_subset (h : Unbroken t) (hs : s ⊆ t) : Unbroken s :=
  ⟨fun hMem => h.1 (hs hMem), fun hMem => h.2 (hs hMem)⟩

theorem Unbroken.getLast?_ne (h : Unbroken t) : t.getLast? ≠ some '\r' :=
  fun hLast => h.1 (List.mem_of_getLast? hLast)

/-- The line is terminated in this way, and nothing else in it ends a line. -/
def Ended (eol : List Char) (l : Line) : Prop :=
  ∃ body, Unbroken body ∧ l = body ++ eol

theorem Ended.append (hs : Unbroken s) (h : Ended eol l) : Ended eol (s ++ l) := by
  obtain ⟨body, hBody, rfl⟩ := h
  exact ⟨s ++ body, unbroken_append.mpr ⟨hs, hBody⟩, (List.append_assoc _ _ _).symm⟩

theorem Ended.whole (hEol : IsEol eol) (h : Ended eol l) : Whole l := by
  obtain ⟨body, hBody, rfl⟩ := h
  exact hEol.whole.append hBody.2

theorem Ended.eol_eq (hEol : IsEol eol) (h : Ended eol l) : l.eol = eol := by
  obtain ⟨body, hBody, rfl⟩ := h
  exact eol_append_isEol hEol hBody.getLast?_ne

theorem Ended.unbroken_content (hEol : IsEol eol) (h : Ended eol l) : Unbroken l.content := by
  obtain ⟨body, hBody, rfl⟩ := h
  rwa [content_append_isEol hEol hBody.getLast?_ne]

/-- The text has no carriage returns, but that each of its line feeds is written as this end of line. -/
def Uniform (eol t : List Char) : Prop :=
  ∃ s : List Char, '\r' ∉ s ∧ t = s.flatMap fun c => if c = '\n' then eol else [c]

theorem uniform_nil : Uniform eol [] :=
  ⟨[], List.not_mem_nil, rfl⟩

theorem Uniform.append (hs : Uniform eol s) (ht : Uniform eol t) : Uniform eol (s ++ t) := by
  obtain ⟨s, hs, rfl⟩ := hs
  obtain ⟨t, ht, rfl⟩ := ht
  exact ⟨s ++ t, by simp [hs, ht], List.flatMap_append.symm⟩

theorem Unbroken.uniform (h : Unbroken t) : Uniform eol t := by
  refine ⟨t, h.1, ?_⟩
  have hSelf : ∀ c ∈ t, (if c = '\n' then eol else [c]) = [c] := by
    intro c hc
    rw [if_neg]
    rintro rfl
    exact h.2 hc
  rw [List.flatMap_congr hSelf, List.flatMap_singleton']

theorem Ended.uniform (h : Ended eol l) : Uniform eol l := by
  obtain ⟨body, hBody, rfl⟩ := h
  exact hBody.uniform.append ⟨['\n'], by decide, by simp⟩

/-- In a text with one end of line every line has it, but perhaps the last one that has none. -/
theorem Uniform.of_mem_ofText (hEol : IsEol eol) (h : Uniform eol t) (hl : l ∈ ofText t) :
    Ended eol l ∨ Unbroken l := by
  obtain ⟨s, hs, rfl⟩ := h
  -- Over the text before its line feeds are rewritten, so that an end of line is never cut in two.
  induction s generalizing l with
  | nil => cases hl
  | cons c s ih =>
    obtain ⟨hc, hRest⟩ := List.ne_and_not_mem_of_not_mem_cons hs
    rw [List.flatMap_cons] at hl
    split at hl
    next =>
      rw [ofText_append hEol.whole] at hl
      rcases List.mem_cons.mp hl with rfl | hl
      · exact .inl ⟨[], by simp [Unbroken], rfl⟩
      · exact ih hRest hl
    next hFeed =>
      have hOne : Unbroken [c] := ⟨by simpa using hc, by simpa using Ne.symm hFeed⟩
      rw [List.singleton_append, ofText, if_neg hFeed] at hl
      split at hl
      next =>
        obtain rfl := List.mem_singleton.mp hl
        exact .inr hOne
      next k ks hLines =>
        rcases List.mem_cons.mp hl with rfl | hl
        · exact (ih hRest (hLines ▸ List.mem_cons_self)).imp (Ended.append hOne)
            fun hk => unbroken_append.mpr ⟨hOne, hk⟩
        · exact ih hRest (hLines ▸ List.mem_cons_of_mem k hl)

theorem uniform_flatten (h : ∀ l ∈ ls, Ended eol l ∨ Unbroken l) : Uniform eol ls.flatten := by
  induction ls with
  | nil => exact uniform_nil
  | cons l ls ih =>
    obtain ⟨hl, hRest⟩ := List.forall_mem_cons.mp h
    exact (hl.elim Ended.uniform Unbroken.uniform).append (ih hRest)

end Line

namespace Patch

theorem mem_of_mem_splice {ps : List Patch} {pos : Nat} {lines : List Line} {l : Line}
    (h : l ∈ splice pos ps lines) : l ∈ lines ∨ ∃ p ∈ ps, l ∈ p.replacement := by
  induction ps generalizing pos lines with
  | nil => exact .inl h
  | cons p ps ih =>
    rcases List.mem_append.mp h with h | h
    · rcases List.mem_append.mp h with h | h
      · exact .inl (List.mem_of_mem_take h)
      · exact .inr ⟨p, List.mem_cons_self, h⟩
    · rcases ih h with hOld | ⟨q, hq, hNew⟩
      · exact .inl (List.mem_of_mem_drop hOld)
      · exact .inr ⟨q, List.mem_cons_of_mem p hq, hNew⟩

end Patch

namespace DocBlock

open Line

variable {u : SourceUnit} {cls : ClassNode} {b : DocBlock} {eol : List Char} {line : Line}

theorem unbroken_of_isIndent {indent : List Char} (h : ∀ c ∈ indent, isIndent c = true) :
    Unbroken indent :=
  ⟨fun hMem => absurd (h _ hMem) (by decide), fun hMem => absurd (h _ hMem) (by decide)⟩

theorem ended_closingLine {indent tail : List Char} (hIndent : ∀ c ∈ indent, isIndent c = true)
    (hTail : Unbroken tail) : Ended eol (closingLine indent ++ tail ++ eol) := by
  refine ⟨closingLine indent ++ tail, unbroken_append.mpr ⟨?_, hTail⟩, rfl⟩
  exact unbroken_append.mpr ⟨unbroken_of_isIndent hIndent, by simp [Unbroken, closing]⟩

theorem ended_bareClosing {indent : List Char} (hIndent : ∀ c ∈ indent, isIndent c = true) :
    Ended eol (closingLine indent ++ eol) := by
  have hNil : Unbroken [] := by simp [Unbroken]
  simpa using ended_closingLine hIndent hNil

/-- The lines of a file with one end of line, of which there is a terminated one. -/
structure EndedWith (eol : List Char) (u : SourceUnit) : Prop where
  lines : ∀ l ∈ u.lines, Ended eol l ∨ Unbroken l
  terminated : ∃ l ∈ u.lines, Ended eol l

theorem EndedWith.unbroken_content (h : EndedWith eol u) (hEol : IsEol eol) (hMem : line ∈ u.lines) :
    Unbroken line.content := by
  rcases h.lines line hMem with hEnded | hFree
  · exact hEnded.unbroken_content hEol
  · exact hFree.of_subset (content_initial line).subset

theorem EndedWith.eolNear_eq (h : EndedWith eol u) (hEol : IsEol eol) (hMem : line ∈ u.lines) :
    eolNear u line = eol := by
  have hEither : ∀ l ∈ u.lines, l.eol = eol ∨ l.eol = [] := fun l hl =>
    (h.lines l hl).imp (Ended.eol_eq hEol) fun hFree => eol_eq_nil hFree.2
  have hFirst : u.firstEol? = some eol := by
    obtain ⟨l, hl, hEnded⟩ := h.terminated
    have hSome : u.firstEol?.isSome = true := by
      rw [SourceUnit.firstEol?, List.find?_isSome]
      exact ⟨l.eol, List.mem_map_of_mem hl, by simp [hEnded.eol_eq hEol, hEol.ne_nil]⟩
    obtain ⟨e, he⟩ := Option.isSome_iff_exists.mp hSome
    obtain ⟨m, hm, rfl⟩ := List.mem_map.mp (List.mem_of_find?_eq_some he)
    have hTerminated : m.eol ≠ [] := by simpa using List.find?_some he
    rw [he, (hEither m hm).resolve_right hTerminated]
  unfold eolNear
  split
  next => rw [hFirst, Option.getD_some]
  next hTerminated => exact (hEither line hMem).resolve_right (by simpa using hTerminated)

theorem EndedWith.ended_of_whole (h : EndedWith eol u) (hMem : line ∈ u.lines) (hWhole : Whole line) :
    Ended eol line := by
  refine (h.lines line hMem).resolve_right fun hFree => hWhole.isEol.ne_nil ?_
  exact eol_eq_nil hFree.2

theorem EndedWith.ended_completed (h : EndedWith eol u) (hEol : IsEol eol) (hMem : line ∈ u.lines) :
    Ended eol (if line.eol.isEmpty then line ++ eol else line) := by
  rcases h.lines line hMem with hEnded | hFree
  · rwa [if_neg (by simp [hEnded.eol_eq hEol, hEol.ne_nil])]
  · rw [if_pos (by simp [eol_eq_nil hFree.2])]
    exact ⟨line, hFree, rfl⟩

theorem EndedWith.ended_of_single {c : DocComment} (h : EndedWith eol u) (hEol : IsEol eol)
    (hBlock : ofComment u c = .ok b) (hSingle : c.startLine = c.endLine) :
    ∀ l ∈ b.lines, Ended eol l := by
  obtain ⟨line, head, tail, hChecked, _, _, _, _, _, hLines, _⟩ := ofComment_of_single hBlock hSingle
  obtain ⟨_, _, _, _, _, hFirst, _⟩ := hChecked.exists_index
  have hMem : line ∈ u.lines := List.mem_of_getElem? hFirst
  have hContent := h.unbroken_content hEol hMem
  rw [Text.eq_of_cutLast? hChecked.cut, unbroken_append, unbroken_append] at hContent
  obtain ⟨⟨hHead, _⟩, hTail⟩ := hContent
  rw [hLines, unfoldedLines_eq hTail.2, h.eolNear_eq hEol hMem, List.forall_mem_cons,
    List.forall_mem_singleton]
  exact ⟨⟨head, hHead, rfl⟩, ended_closingLine hChecked.opens.1 hTail⟩

theorem EndedWith.ended_of_several {c : DocComment} (h : EndedWith eol u) (hEol : IsEol eol)
    (hCut : AreCut u.lines) (hBlock : ofComment u c = .ok b) (hSeveral : c.startLine ≠ c.endLine) :
    ∀ l ∈ b.lines, Ended eol l := by
  obtain ⟨_, _, _, _, hFramed⟩ := framed_of_several hCut hBlock hSeveral
  obtain ⟨first, middle, last, _, _, _, ⟨above, below, _, hUnit⟩, hReplaced, _, _, _, _, hLines⟩ :=
    ofComment_of_several hCut hBlock hSeveral
  have hHere : ∀ l ∈ first :: (middle ++ [last]), l ∈ u.lines := by
    intro l hl
    rw [hUnit, hReplaced]
    exact List.mem_append_left below (List.mem_append_right above hl)
  have hInit : ∀ l ∈ first :: middle, Ended eol l := by
    intro l hl
    refine h.ended_of_whole (hHere l (List.mem_append_left [last] hl)) (hFramed.whole l ?_)
    rw [hLines]
    exact List.mem_append_left [_] hl
  rw [hLines, (hInit first List.mem_cons_self).eol_eq hEol, ← List.cons_append,
    List.forall_mem_append, List.forall_mem_singleton]
  exact ⟨hInit, h.ended_completed hEol (hHere last (by simp))⟩

theorem EndedWith.ended_of_blank {n : Nat} (h : EndedWith eol u) (hEol : IsEol eol)
    (hBlock : blank u n = .ok b) : ∀ l ∈ b.lines, Ended eol l := by
  obtain ⟨line, hLine, rfl⟩ := blank_eq_ok_iff.mp hBlock
  obtain ⟨_, _, hGet⟩ := SourceUnit.exists_of_line?_eq_some hLine
  have hIndent : ∀ c ∈ line.indent, isIndent c = true := fun c hc => isIndent_of_mem_indent hc
  have hNear := h.eolNear_eq hEol (List.mem_of_getElem? hGet)
  have hOpening : Unbroken opening := by simp [Unbroken, opening]
  dsimp only
  rw [hNear, List.forall_mem_cons, List.forall_mem_singleton]
  exact ⟨⟨_, unbroken_append.mpr ⟨unbroken_of_isIndent hIndent, hOpening⟩, rfl⟩,
    ended_bareClosing hIndent⟩

theorem EndedWith.ended_of_locate (h : EndedWith eol u) (hEol : IsEol eol) (hCut : AreCut u.lines)
    (hLocate : locate u cls = .ok b) : ∀ l ∈ b.lines, Ended eol l := by
  cases located_of_locate hLocate with
  | single _ hBlock hSingle => exact h.ended_of_single hEol hBlock hSingle
  | several _ hBlock hSeveral => exact h.ended_of_several hEol hCut hBlock hSeveral
  | bare _ hBlock => exact h.ended_of_blank hEol hBlock

theorem Framed.ended_clear {first last : Line} {middle : List Line} (h : Framed b first middle last)
    (hEol : IsEol eol) (hEnded : ∀ l ∈ b.lines, Ended eol l) : ∀ l ∈ b.clear.lines, Ended eol l := by
  rw [h.lines, List.forall_mem_cons, List.forall_mem_append, List.forall_mem_singleton] at hEnded
  obtain ⟨hFirst, hMiddle, hLast⟩ := hEnded
  rw [clear_eq h.lines, List.forall_mem_cons, List.forall_mem_append, List.forall_mem_singleton]
  refine ⟨?_, fun l hl => hMiddle l (List.mem_filter.mp hl).1, ?_⟩
  · unfold openingAfter
    split
    next hTagged =>
      obtain ⟨before, _, hCut, hLine, _⟩ := exists_cut_of_isTagged (hFirst.whole hEol) hTagged
      have hContent := hFirst.unbroken_content hEol
      rw [Text.eq_of_cutFirst? hCut, unbroken_append, unbroken_append] at hContent
      rw [hLine, hFirst.eol_eq hEol]
      exact ⟨_, hContent.1.1.of_subset (Text.trimEnd_initial before).subset, rfl⟩
    next => exact hFirst
  · unfold closingAfter
    split
    next =>
      rw [clearedClosing_of_whole b (hLast.whole hEol), hLast.eol_eq hEol]
      exact ended_bareClosing h.opens.1
    next => exact hLast

theorem ended_line {a : Annotation} {indent : List Char} (hIndent : Unbroken indent)
    (hType : Unbroken a.typeName.toList) (hSymbol : Unbroken a.symbol.toList) :
    Ended eol (a.line indent eol) := by
  refine ⟨indent ++ ' ' :: '*' :: ' ' :: a.saying, unbroken_append.mpr ⟨hIndent, ?_⟩, ?_⟩
  · simpa [Unbroken, Annotation.saying, Annotation.tag] using
      ⟨⟨hType.1, hSymbol.1⟩, hType.2, hSymbol.2⟩
  · simp [ Annotation.line_eq]

end DocBlock

namespace Merge

open DocBlock Line

/-- The patch of a merge whose annotations are free of carriage returns and line feeds. -/
def UnbrokenMerge (u : SourceUnit) (p : Patch) : Prop :=
  ∃ x remove cls extraction rules annotations, render x extraction rules = .ok annotations ∧
    (∀ a ∈ annotations, Unbroken a.typeName.toList ∧ Unbroken a.symbol.toList) ∧
    merge x remove u cls extraction rules = .ok (some p)

variable {u : SourceUnit} {p : Patch} {eol : List Char}

theorem UnbrokenMerge.ended (h : UnbrokenMerge u p) (hCut : AreCut u.lines) (hEol : IsEol eol)
    (hEnds : EndedWith eol u) : ∀ l ∈ p.replacement, Ended eol l := by
  obtain ⟨x, remove, cls, extraction, rules, annotations, hRender, hUnbroken, hMerge⟩ := h
  obtain ⟨_, b, hRender', hLocate, hBlock⟩ := merge_eq_ok_some_iff.mp hMerge
  obtain rfl := Except.ok.inj (hRender.symm.trans hRender')
  obtain ⟨_, _, rfl⟩ := mergeBlock_eq_some_iff.mp hBlock
  obtain ⟨_, first, middle, last, hFramed⟩ := framed_of_locate hCut hLocate
  have hLocated := hEnds.ended_of_locate hEol hCut hLocate
  have hBase : ∀ l ∈ (base remove b).lines, Ended eol l := by
    cases remove with
    | false => exact hLocated
    | true => exact hFramed.ended_clear hEol hLocated
  have hSame : b.eol = eol := by
    rw [hFramed.eol]
    exact (hLocated first (by simp [hFramed.lines])).eol_eq hEol
  obtain ⟨_, _, _, hBaseFramed⟩ := exists_framed_base remove ⟨_, _, _, hFramed⟩
  intro l hl
  rcases hBaseFramed.mem_foldl_insert_iff.mp hl with hOld | ⟨a, ha, rfl⟩
  · exact hBase l hOld
  · rw [base_indent, base_eol, hSame]
    obtain ⟨hType, hSymbol⟩ := hUnbroken a (mem_of_mem_missing ha)
    exact ended_line (unbroken_of_isIndent hFramed.opens.1) hType hSymbol

theorem UnbrokenMerge.exists_applied (h : UnbrokenMerge u p) (hCut : AreCut u.lines) :
    ∃ updated, Patch.applyAll u [p] = .ok updated := by
  obtain ⟨_, _, _, _, _, _, _, _, hMerge⟩ := h
  obtain ⟨_, b, _, hLocate, hBlock⟩ := merge_eq_ok_some_iff.mp hMerge
  obtain ⟨_, _, rfl⟩ := mergeBlock_eq_some_iff.mp hBlock
  obtain ⟨⟨above, below, hAbove, hUnit⟩, _⟩ := framed_of_locate hCut hLocate
  exact ⟨_, Patch.applyAll_singleton hUnit hAbove rfl⟩

/-- A merge keeps the end of line of a file: its lines have that end of line, and so has every
terminated line of the file after any number of merges. -/
theorem merge_uniform (hRead : u.IsRead) (hEol : IsEol eol) (hUniform : Uniform eol u.text)
    (hFeed : '\n' ∈ u.text) :
    (∀ p, UnbrokenMerge u p → (∀ l ∈ p.replacement, Ended eol l) ∧
      ∃ updated, Patch.applyAll u [p] = .ok updated) ∧
    ∀ ps updated, (∀ p ∈ ps, UnbrokenMerge u p) → Patch.applyAll u ps = .ok updated →
      (∀ l ∈ updated.lines, '\n' ∈ l → Ended eol l) ∧ Uniform eol updated.text := by
  have hCut := hRead.areCut
  have hLines : ∀ l ∈ u.lines, Ended eol l ∨ Unbroken l := by
    rw [← hCut]
    exact fun l hl => hUniform.of_mem_ofText hEol hl
  have hEnds : EndedWith eol u := by
    obtain ⟨l, hl, hTerminated⟩ := List.mem_flatten.mp hFeed
    exact ⟨hLines, l, hl, (hLines l hl).resolve_right fun hFree => hFree.2 hTerminated⟩
  refine ⟨fun p h => ⟨h.ended hCut hEol hEnds, h.exists_applied hCut⟩, fun ps updated h hApplied => ?_⟩
  obtain ⟨_, rfl⟩ := Patch.applyAll_eq_ok_iff.mp hApplied
  have hAfter : ∀ l ∈ Patch.splice 0 (Patch.inOrder ps) u.lines, Ended eol l ∨ Unbroken l := by
    intro l hl
    rcases Patch.mem_of_mem_splice hl with hOld | ⟨p, hp, hNew⟩
    · exact hLines l hOld
    · exact .inl ((h p (Patch.mem_inOrder.mp hp)).ended hCut hEol hEnds l hNew)
  refine ⟨fun l hl hTerminated => ?_, uniform_flatten hAfter⟩
  exact (hAfter l hl).resolve_right fun hFree => hFree.2 hTerminated

/-- A comment on one line that is taken apart and cleared, and a class without a comment on a last line
that is not terminated. -/
def returnsUnit : SourceUnit :=
  .ofText "<?php\r\n\t/** A @property Old $Old */\r\n\tclass A \x7b\x7d\r\nclass B \x7b\x7d".toList

def returnsPatches : List Patch :=
  [⟨1, 1, ["\t/** A\r\n".toList, "\t * @property Post $Post\r\n".toList, "\t */\r\n".toList]⟩,
    ⟨3, 0, ["/**\r\n".toList, " * @property Post $Post\r\n".toList, " */\r\n".toList]⟩]

theorem merge_uniform_returns :
    returnsUnit.IsRead ∧ IsEol ['\r', '\n'] ∧ Uniform ['\r', '\n'] returnsUnit.text ∧
    '\n' ∈ returnsUnit.text ∧ (∀ p ∈ returnsPatches, UnbrokenMerge returnsUnit p) ∧
    ∃ updated, Patch.applyAll returnsUnit returnsPatches = .ok updated ∧
      Uniform ['\r', '\n'] updated.text ∧ "class B \x7b\x7d".toList ∈ updated.lines := by
  have hRead : returnsUnit.IsRead := .inl ⟨_, rfl⟩
  have hEol : IsEol ['\r', '\n'] := .inr rfl
  have hUniform : Uniform ['\r', '\n'] returnsUnit.text :=
    ⟨"<?php\n\t/** A @property Old $Old */\n\tclass A \x7b\x7d\nclass B \x7b\x7d".toList,
      by decide +kernel, by decide +kernel⟩
  have hFeed : '\n' ∈ returnsUnit.text := by decide +kernel
  have hMerged : ∀ p ∈ returnsPatches, UnbrokenMerge returnsUnit p := by
    have hRender : render (.ofNames ["uses"]) postExtraction usesRules = .ok [⟨"Post", "Post"⟩] := by
      decide +kernel
    have hPost : ∀ a ∈ [(⟨"Post", "Post"⟩ : Annotation)],
        Unbroken a.typeName.toList ∧ Unbroken a.symbol.toList := by simp [Unbroken]
    rw [returnsPatches, List.forall_mem_cons, List.forall_mem_singleton]
    exact ⟨⟨_, true, ⟨"A", some "Shell", 3, some ⟨2, 2⟩, []⟩, _, _, _, hRender, hPost, by decide +kernel⟩,
      ⟨_, true, ⟨"B", some "Shell", 4, none, []⟩, _, _, _, hRender, hPost, by decide +kernel⟩⟩
  obtain ⟨_, hApplied⟩ := merge_uniform hRead hEol hUniform hFeed
  have hBoth : Patch.applyAll returnsUnit returnsPatches =
      .ok { returnsUnit with lines := Patch.splice 0 returnsPatches returnsUnit.lines } := by
    decide +kernel
  exact ⟨hRead, hEol, hUniform, hFeed, hMerged, _, hBoth, (hApplied _ _ hMerged hBoth).2,
    by decide +kernel⟩

end Merge

end DocWiring
