import DocWiring.Proofs.Merge.PureInsertion

/-! # Merging with removal

Clearing takes the tagged text out of a block and nothing else: the opening line is cut off before its
first tag, tagged lines further down go, and a tagged closing line is made anew.  After a merge that
clears, the tags of the block are those of the lines that the merge has added.
-/

namespace DocWiring

namespace DocBlock

open Annotation

/-- The tag of an annotation stands in the content of the line, in lower case. -/
def Tagged (l : Line) : Prop :=
  tag <:+: l.content

theorem isTagged_iff {l : Line} : isTagged l = true ↔ Tagged l :=
  Text.holds_iff

instance (l : Line) : Decidable (Tagged l) :=
  decidable_of_iff _ isTagged_iff

/-- What is left of an opening line. -/
inductive OpeningLeft (l : Line) : Line → Prop where
  | whole : ¬ Tagged l → OpeningLeft l l
  | cut (before after : List Char) : l.content = before ++ tag ++ after → ¬ tag <:+: before →
      OpeningLeft l (Text.trimEnd before ++ l.eol)

/-- What is left of a closing line. -/
inductive ClosingLeft (indent : List Char) (l : Line) : Line → Prop where
  | whole : ¬ Tagged l → ClosingLeft indent l l
  | bare : Tagged l → ClosingLeft indent l (indent ++ " */".toList ++ l.eol)

/-- The second block is the first one without its tagged text. -/
structure Cleared (b c : DocBlock) : Prop where
  place : SamePlace b c
  lines : ∃ first middle last opened closed, b.lines = first :: (middle ++ [last]) ∧
    c.lines = opened :: (middle.filter (fun l => ¬ Tagged l) ++ [closed]) ∧
    OpeningLeft first opened ∧ ClosingLeft b.indent last closed

theorem openingLeft_openingAfter (l : Line) : OpeningLeft l (openingAfter l) := by
  unfold openingAfter
  split
  next hTagged =>
    obtain ⟨before, after, hCut, hLine⟩ := clearedOpening_of_isTagged hTagged
    rw [hLine]
    exact .cut before after (Text.eq_of_cutFirst? hCut) (Text.not_infix_of_cutFirst? (by decide) hCut)
  next hTagged => exact .whole (mt isTagged_iff.mpr hTagged)

theorem closingLeft_closingAfter (b : DocBlock) {l : Line} (hWhole : Line.Whole l) :
    ClosingLeft b.indent l (b.closingAfter l) := by
  unfold closingAfter
  split
  next hTagged =>
    rw [clearedClosing_of_whole b hWhole]
    exact .bare (isTagged_iff.mp hTagged)
  next hTagged => exact .whole (mt isTagged_iff.mpr hTagged)

theorem cleared_clear {b : DocBlock} {first last : Line} {middle : List Line}
    (hLines : b.lines = first :: (middle ++ [last])) (hLast : Line.Whole last) : Cleared b b.clear := by
  have hMiddle : middle.filter (fun l => !isTagged l) = middle.filter fun l => ¬ Tagged l :=
    List.filter_congr fun l _ => by simp [← isTagged_iff]
  refine ⟨samePlace_clear b, first, middle, last, openingAfter first, b.closingAfter last, hLines, ?_,
    openingLeft_openingAfter first, closingLeft_closingAfter b hLast⟩
  rw [clear_eq hLines, hMiddle]

end DocBlock

namespace Merge

open DocBlock

theorem tagged_of_mem_written {indent eol : List Char} {annotations : List Annotation} {l : Line}
    (h : l ∈ written indent eol annotations) : Tagged l := by
  obtain ⟨a, _, rfl⟩ := List.mem_map.mp h
  exact isTagged_iff.mp (isTagged_line a indent eol)

theorem filter_tagged_eq {init added : List Line} {last : Line}
    (hBare : ∀ l ∈ init ++ [last], ¬ Tagged l) (hAdded : ∀ l ∈ added, Tagged l) :
    (init ++ added ++ [last]).filter (fun l => Tagged l) = added := by
  have hInit : init.filter (fun l => Tagged l) = [] := by
    rw [List.filter_eq_nil_iff]
    intro l hl
    simpa using hBare l (List.mem_append_left _ hl)
  have hAll : added.filter (fun l => Tagged l) = added := by
    rw [List.filter_eq_self]
    exact fun l hl => decide_eq_true (hAdded l hl)
  have hLast : ¬ Tagged last := hBare last (by simp)
  simp [List.filter_append, hInit, hAll, hLast]

/-- Clearing takes the tagged text out of the block of a class and nothing else, whatever has been added
to the block before.  A merge that clears writes no tags but those of what it adds, all of them right
before the closing line. -/
theorem merge_clearing {u : SourceUnit} (hRead : u.IsRead) (cls : ClassNode) :
    (∀ located b annotations, locate u cls = .ok located →
      b = (annotations : List Annotation).foldl insert located →
      Cleared b b.clear ∧ b.taggedCount = b.lines.countP (fun l => Tagged l) ∧
        (∀ l ∈ b.clear.lines, ¬ Tagged l) ∧ b.clear.taggedCount = 0 ∧ b.clear.clear = b.clear) ∧
    ∀ x extraction rules p, merge x true u cls extraction rules = .ok (some p) →
      ∃ annotations b init last, render x extraction rules = .ok annotations ∧
        locate u cls = .ok b ∧ b.clear.lines = init ++ [last] ∧
        p.replacement = init ++ written b.indent b.eol (missing b.clear annotations) ++ [last] ∧
        p.replacement.filter (fun l => Tagged l) =
          written b.indent b.eol (missing b.clear annotations) ∧
        (missing b.clear annotations).Sublist annotations := by
  constructor
  · rintro located b annotations hLocate rfl
    obtain ⟨_, first, middle, last, hFramed⟩ := framed_of_locate hRead.areCut hLocate
    have hFirst : Line.Whole first := hFramed.whole first (by simp [hFramed.lines])
    have hLast : Line.Whole last := hFramed.whole last (by simp [hFramed.lines])
    have hLines := foldl_insert_lines annotations (first :: middle) hFramed.lines
    rw [List.cons_append, List.cons_append] at hLines
    generalize hSame : annotations.foldl insert located = b at hLines ⊢
    have hOpens : Opens b.indent first := by
      rw [← hSame, foldl_insert_indent]
      exact hFramed.opens
    have hBare := isTagged_of_mem_clear hLines hFirst hOpens hLast
    have hCount : b.taggedCount = b.lines.countP fun l => Tagged l := by
      rw [taggedCount_eq]
      exact List.countP_congr fun l _ => by simp [isTagged_iff]
    have hNone : b.clear.taggedCount = 0 := by
      rw [taggedCount_eq]
      exact List.countP_eq_zero.mpr fun l hl => by simp [hBare l hl]
    have hAfter := congrArg DocBlock.lines (clear_eq hLines)
    refine ⟨cleared_clear hLines hLast, hCount, ?_, hNone, clear_eq_self hAfter hBare⟩
    intro l hl
    rw [← isTagged_iff, hBare l hl]
    simp
  · intro x extraction rules p hMerge
    obtain ⟨annotations, b, hRender, hLocate, hBlock⟩ := merge_eq_ok_some_iff.mp hMerge
    obtain ⟨_, _, rfl⟩ := mergeBlock_eq_some_iff.mp hBlock
    obtain ⟨_, first, middle, last, hFramed⟩ := framed_of_locate hRead.areCut hLocate
    obtain ⟨hCleared, hBare⟩ := hFramed.clear
    have hClear : b.clear.lines = openingAfter first :: (middle.filter (fun l => !isTagged l)) ++
        [b.closingAfter last] := hCleared.lines
    have hLines := foldl_insert_lines annotations _ hClear
    rw [clear_indent, clear_eol] at hLines
    refine ⟨annotations, b, _, _, hRender, hLocate, hClear, hLines, ?_, missing_sublist _ _⟩
    rw [base, if_pos rfl, hLines]
    refine filter_tagged_eq (fun l hl => ?_) fun l hl => tagged_of_mem_written hl
    rw [← isTagged_iff, hBare l (hClear ▸ hl)]
    simp

/-- Tags on the opening line, on a line of their own and on the closing line. -/
def strewnLines : List Line :=
  ["\t/** A  @property Old $Old @property\r\n".toList, "\t * @property Tag $Tag\r\n".toList,
    "\t * B\r\n".toList, "\t * @property C $C */\r\n".toList]

def strewnUnit : SourceUnit :=
  .ofText ("<?php\r\n".toList ++ strewnLines.flatten ++ "\tclass A {}\r\n".toList)

def strewnClass : ClassNode :=
  ⟨"A", some "Shell", 6, some ⟨2, 5⟩, []⟩

def strewnBlock : DocBlock :=
  ⟨strewnLines, strewnLines, 1, ['\t'], ['\r', '\n']⟩

/-- The second annotation is there already, in capitals. -/
def strewnAdded : DocBlock :=
  [(⟨"@property", "x"⟩ : Annotation), ⟨"C", "c"⟩].foldl insert strewnBlock

theorem merge_clearing_strewn :
    strewnUnit.IsRead ∧ locate strewnUnit strewnClass = .ok strewnBlock ∧
    Cleared strewnAdded strewnAdded.clear ∧ strewnAdded.lines.countP (fun l => Tagged l) = 4 ∧
    strewnAdded.clear.lines = ["\t/** A\r\n".toList, "\t * B\r\n".toList, "\t */\r\n".toList] ∧
    ∃ p, merge (.ofNames ["uses"]) true strewnUnit strewnClass postExtraction usesRules = .ok (some p) ∧
      p.replacement.filter (fun l => Tagged l) = ["\t * @property Post $Post\r\n".toList] := by
  have hRead : strewnUnit.IsRead := .inl ⟨_, rfl⟩
  have hLocate : locate strewnUnit strewnClass = .ok strewnBlock := by decide +kernel
  have hMerge : merge (.ofNames ["uses"]) true strewnUnit strewnClass postExtraction usesRules =
      .ok (some ⟨1, 4, ["\t/** A\r\n".toList, "\t * B\r\n".toList,
        "\t * @property Post $Post\r\n".toList, "\t */\r\n".toList]⟩) := by decide +kernel
  have hRender : render (.ofNames ["uses"]) postExtraction usesRules = .ok [⟨"Post", "Post"⟩] := by
    decide +kernel
  obtain ⟨hBlocks, hPatches⟩ := merge_clearing hRead strewnClass
  obtain ⟨hCleared, hCount, _⟩ := hBlocks strewnBlock strewnAdded _ hLocate rfl
  refine ⟨hRead, hLocate, hCleared, ?_, by decide +kernel, _, hMerge, ?_⟩
  · rw [← hCount]
    decide +kernel
  · obtain ⟨annotations, b, _, _, hRendered, hLocated, _, _, hTagged, _⟩ := hPatches _ _ _ _ hMerge
    obtain rfl := Except.ok.inj (hRender.symm.trans hRendered)
    obtain rfl := Except.ok.inj (hLocate.symm.trans hLocated)
    rw [hTagged]
    decide +kernel

end Merge

end DocWiring
