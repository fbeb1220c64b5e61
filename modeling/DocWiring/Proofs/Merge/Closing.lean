import DocWiring.Php.File
import DocWiring.Proofs.DocBlock.Editing
import DocWiring.Proofs.Merge.Insertion
import DocWiring.Proofs.Text.Occurrences

/-! # Where a comment ends

The names of an annotation are written into its line as they are.  The comment still ends on its last line
only, and every line is still one line, exactly if no name that is added holds a closing sign or a line
feed.
-/

namespace DocWiring

open Text

namespace Annotation

/-- The mark stands neither in the type nor in the symbol. -/
structure Lacks (a : Annotation) (mark : List Char) : Prop where
  typeName : ¬ mark <:+: a.typeName.toList
  symbol : ¬ mark <:+: a.symbol.toList

theorem lacks_iff {a : Annotation} {mark : List Char} : a.Lacks mark ↔
    holds mark a.typeName.toList = false ∧ holds mark a.symbol.toList = false := by
  rw [holds_eq_false_iff, holds_eq_false_iff]
  exact ⟨fun h => ⟨h.typeName, h.symbol⟩, fun h => ⟨h.1, h.2⟩⟩

instance (a : Annotation) (mark : List Char) : Decidable (a.Lacks mark) :=
  decidable_of_iff' _ lacks_iff

theorem lacks_singleton_iff {a : Annotation} {c : Char} :
    a.Lacks [c] ↔ c ∉ a.typeName.toList ∧ c ∉ a.symbol.toList := by
  rw [← List.singleton_infix_iff, ← List.singleton_infix_iff]
  exact ⟨fun h => ⟨h.typeName, h.symbol⟩, fun h => ⟨h.1, h.2⟩⟩

end Annotation

namespace DocBlock

/-- The comment of these lines ends once, on the last of them. -/
structure ClosedOnce (ls : List Line) : Prop where
  once : occurrences closing ls.flatten = 1
  last : ∃ l ∈ ls.getLast?, closing <:+: l

theorem closedOnce_iff_holds {ls : List Line} : ClosedOnce ls ↔
    occurrences closing ls.flatten = 1 ∧ ls.getLast?.any (holds closing) = true := by
  rw [Option.any_eq_true]
  simp only [holds_iff]
  exact ⟨fun h => ⟨h.once, h.last⟩, fun h => ⟨h.1, h.2⟩⟩

instance (ls : List Line) : Decidable (ClosedOnce ls) :=
  decidable_of_iff' _ closedOnce_iff_holds

theorem closing_ne_nil : closing ≠ [] := by
  decide

theorem occurrences_eq_zero_of_not_mem {t : List Char} (hStar : '*' ∉ t) :
    occurrences closing t = 0 :=
  (occurrences_eq_zero_iff closing_ne_nil).mpr (not_infix_of_not_mem (by decide) hStar)

theorem closedOnce_concat_iff {init : List Line} {last : Line}
    (h : ∀ l ∈ init ++ [last], ∃ body, l = body ++ ['\n']) :
    ClosedOnce (init ++ [last]) ↔
      (∀ l ∈ init, ¬ closing <:+: l) ∧ occurrences closing last = 1 := by
  have hCount := occurrences_flatten closing_ne_nil (by decide) h
  rw [List.map_append, List.map_singleton, List.sum_append, List.sum_singleton] at hCount
  have hInit : (init.map (occurrences closing)).sum = 0 ↔ ∀ l ∈ init, ¬ closing <:+: l := by
    rw [List.sum_eq_zero_iff_forall_eq_nat, List.forall_mem_map]
    exact forall₂_congr fun l _ => occurrences_eq_zero_iff closing_ne_nil
  have hLast : (∃ l ∈ (init ++ [last]).getLast?, closing <:+: l) ↔ occurrences closing last ≠ 0 := by
    simp [occurrences_eq_zero_iff closing_ne_nil]
  constructor
  · rintro ⟨hOnce, hLater⟩
    rw [hCount] at hOnce
    have hSome := hLast.mp hLater
    exact ⟨hInit.mp (by omega), by omega⟩
  · rintro ⟨hNone, hOne⟩
    refine ⟨?_, hLast.mpr (by omega)⟩
    rw [hCount, hInit.mpr hNone, hOne]

theorem occurrences_append_isEol {eol : List Char} (hEol : Line.IsEol eol) (t : List Char) :
    occurrences closing (t ++ eol) = occurrences closing t := by
  rcases hEol with rfl | rfl
  all_goals exact occurrences_append_cons closing_ne_nil (by decide) t _

/-- What is written around the names does not end a comment, nor does a name with what stands next to
it. -/
theorem occurrences_line (a : Annotation) {indent eol : List Char} (hStar : '*' ∉ indent)
    (hEol : Line.IsEol eol) : occurrences closing (a.line indent eol) =
      occurrences closing a.typeName.toList + occurrences closing a.symbol.toList := by
  have hCut (s : List Char) {c : Char} (hc : c ∉ closing) (t : List Char) :=
    occurrences_append_cons closing_ne_nil hc s t
  have hLine : a.line indent eol = indent ++ ' ' :: (['*'] ++ ' ' :: ( Annotation.tag ++ ' ' ::
      (a.typeName.toList ++ ' ' :: ([] ++ '$' :: (a.symbol.toList ++ eol))))) := by
    simp [ Annotation.line]
  rw [hLine, hCut _ (by decide), hCut _ (by decide), hCut _ (by decide), hCut _ (by decide),
    hCut _ (by decide), occurrences_eq_zero_of_not_mem hStar, occurrences_append_isEol hEol]
  simp [occurrences, closing, Annotation.tag]

theorem not_infix_line_iff {a : Annotation} {indent eol : List Char} (hStar : '*' ∉ indent)
    (hEol : Line.IsEol eol) : ¬ closing <:+: a.line indent eol ↔ a.Lacks closing := by
  rw [← occurrences_eq_zero_iff closing_ne_nil, occurrences_line a hStar hEol, Nat.add_eq_zero_iff,
    occurrences_eq_zero_iff closing_ne_nil, occurrences_eq_zero_iff closing_ne_nil]
  exact ⟨fun h => ⟨h.1, h.2⟩, fun h => ⟨h.typeName, h.symbol⟩⟩

theorem whole_line_iff {a : Annotation} {indent eol : List Char} (hIndent : '\n' ∉ indent)
    (hEol : Line.IsEol eol) : Line.Whole (a.line indent eol) ↔ a.Lacks ['\n'] := by
  rw [ Annotation.lacks_singleton_iff]
  constructor
  · intro h
    rw [ Annotation.line] at h
    have hFree := h.not_mem_of_append hEol.ne_nil
    simp only [List.mem_append, List.mem_cons, not_or] at hFree
    exact ⟨hFree.1.2.2, hFree.2.2.2⟩
  · exact fun h => Annotation.whole_line (a.not_mem_saying h.1 h.2) hIndent hEol

variable {b : DocBlock} {first last : Line} {middle : List Line} {annotations : List Annotation}

theorem exists_body_line (a : Annotation) (indent : List Char) {eol : List Char}
    (hEol : Line.IsEol eol) : ∃ body, a.line indent eol = body ++ ['\n'] := by
  obtain ⟨body, _, rfl⟩ := hEol.whole
  exact ⟨_, (List.append_assoc _ _ _).symm⟩

theorem Framed.closedOnce_iff (h : Framed b first middle last) : ClosedOnce b.lines ↔
    (∀ l ∈ first :: middle, ¬ closing <:+: l) ∧ occurrences closing last = 1 := by
  rw [h.lines, ← List.cons_append]
  refine closedOnce_concat_iff fun l hl => ?_
  exact (h.whole l (by simpa [h.lines] using hl)).imp fun _ => And.right

theorem not_infix_openingAfter {l : Line} (hWhole : Line.Whole l) (h : ¬ closing <:+: l) :
    ¬ closing <:+: openingAfter l := by
  unfold openingAfter
  split
  next hTagged =>
    obtain ⟨before, after, hCut, hKept, _⟩ := exists_cut_of_isTagged hWhole hTagged
    have hBefore : before <+: l.content :=
      ⟨ Annotation.tag ++ after, by rw [eq_of_cutFirst? hCut, List.append_assoc]⟩
    rw [hKept, ← occurrences_eq_zero_iff closing_ne_nil, occurrences_append_isEol hWhole.isEol,
      occurrences_eq_zero_iff closing_ne_nil]
    intro hInfix
    exact h (hInfix.trans
      ((trimEnd_initial before).trans (hBefore.trans (Line.content_initial l))).isInfix)
  next => exact h

theorem occurrences_closingAfter {l : Line} (hWhole : Line.Whole l) (hStar : '*' ∉ b.indent)
    (h : occurrences closing l = 1) : occurrences closing (b.closingAfter l) = 1 := by
  unfold closingAfter
  split
  next =>
    rw [clearedClosing_of_whole b hWhole, occurrences_append_isEol hWhole.isEol, closingLine,
      occurrences_append_cons closing_ne_nil (by decide), occurrences_eq_zero_of_not_mem hStar]
    decide
  next => exact h

theorem Framed.closedOnce_clear (h : Framed b first middle last) (hOnce : ClosedOnce b.lines) :
    ClosedOnce b.clear.lines := by
  obtain ⟨hOpen, hLast⟩ := h.closedOnce_iff.mp hOnce
  obtain ⟨hFirst, hMiddle⟩ := List.forall_mem_cons.mp hOpen
  refine h.clear.1.closedOnce_iff.mpr ⟨List.forall_mem_cons.mpr ⟨?_, ?_⟩, ?_⟩
  · exact not_infix_openingAfter (h.whole first (by simp [h.lines])) hFirst
  · exact fun l hl => hMiddle l (List.mem_filter.mp hl).1
  · exact occurrences_closingAfter (h.whole last (by simp [h.lines])) (h.opens.not_mem (by decide))
      hLast

theorem Framed.whole_foldl_insert_iff (h : Framed b first middle last) :
    (∀ l ∈ (annotations.foldl DocBlock.insert b).lines, Line.Whole l) ↔
      ∀ a ∈ Merge.missing b annotations, a.Lacks ['\n'] := by
  constructor
  · intro hAll a ha
    have hMem := h.mem_foldl_insert_iff.mpr (.inr ⟨a, ha, rfl⟩)
    exact (whole_line_iff h.not_mem_indent h.isEol).mp (hAll _ hMem)
  · intro hAll l hl
    rcases h.mem_foldl_insert_iff.mp hl with hOld | ⟨a, ha, rfl⟩
    · exact h.whole l hOld
    · exact (whole_line_iff h.not_mem_indent h.isEol).mpr (hAll a ha)

theorem Framed.closedOnce_foldl_insert_iff (h : Framed b first middle last)
    (hOnce : ClosedOnce b.lines) : ClosedOnce (annotations.foldl DocBlock.insert b).lines ↔
      ∀ a ∈ Merge.missing b annotations, a.Lacks closing := by
  obtain ⟨hOpen, hLast⟩ := h.closedOnce_iff.mp hOnce
  have hStar : '*' ∉ b.indent := h.opens.not_mem (by decide)
  -- A line of a type with a line feed is not whole, but it ends in one.
  have hEnds : ∀ l ∈ (annotations.foldl DocBlock.insert b).lines, ∃ body, l = body ++ ['\n'] := by
    intro l hl
    rcases h.mem_foldl_insert_iff.mp hl with hOld | ⟨a, _, rfl⟩
    · exact (h.whole l hOld).imp fun _ => And.right
    · exact exists_body_line a b.indent h.isEol
  rw [foldl_insert_lines annotations (first :: middle) h.lines] at hEnds ⊢
  rw [closedOnce_concat_iff hEnds, List.forall_mem_append, List.forall_mem_map]
  constructor
  · exact fun hAll a ha => (not_infix_line_iff hStar h.isEol).mp (hAll.1.2 a ha)
  · exact fun hAll =>
      ⟨⟨hOpen, fun a ha => (not_infix_line_iff hStar h.isEol).mpr (hAll a ha)⟩, hLast⟩

end DocBlock

namespace Merge

open DocBlock

/-- A patch for a block that is closed once is closed once as well exactly if no annotation that it adds
holds a closing sign, and its lines are lines exactly if none holds a line feed. -/
theorem closedOnce_replacement_iff {x : Extractor} {remove : Bool} {u : SourceUnit} {cls : ClassNode}
    {extraction : Extraction} {rules : AttributeRules} {annotations : List Annotation} {b : DocBlock}
    {p : Patch} (hRead : u.IsRead) (hRender : render x extraction rules = .ok annotations)
    (hLocate : locate u cls = .ok b) (hOnce : ClosedOnce b.lines)
    (hMerge : merge x remove u cls extraction rules = .ok (some p)) :
    (ClosedOnce p.replacement ↔ ∀ a ∈ missing (base remove b) annotations, a.Lacks closing) ∧
      ((∀ l ∈ p.replacement, Line.Whole l) ↔
        ∀ a ∈ missing (base remove b) annotations, a.Lacks ['\n']) := by
  rw [merge_eq_ok hRender hLocate] at hMerge
  obtain ⟨_, _, rfl⟩ := mergeBlock_eq_some_iff.mp (Except.ok.inj hMerge)
  obtain ⟨_, first, middle, last, hFramed⟩ := framed_of_locate hRead.areCut hLocate
  obtain ⟨_, _, _, hBase⟩ := exists_framed_base remove ⟨_, _, _, hFramed⟩
  have hClear : ClosedOnce (base remove b).lines := by
    cases remove with
    | false => exact hOnce
    | true => exact hFramed.closedOnce_clear hOnce
  exact ⟨hBase.closedOnce_foldl_insert_iff hClear, hBase.whole_foldl_insert_iff⟩

/-- A comment with a tag on its first and on its last line. -/
def taggedUnit : SourceUnit :=
  .ofText "<?php\n/** A @property Old $Old\n * @property Tag $Tag */\nclass A {}\n".toList

def taggedClass : ClassNode :=
  ⟨"A", some "Shell", 4, some ⟨2, 3⟩, []⟩

/-- The second name ends a comment. -/
def starExtraction : Extraction :=
  ⟨⟨⟨"a.php"⟩, 4⟩,
    OrderedMap.ofList [("uses", SortedMap.ofList [("Post", "Post"), ("Tag*/", "Tag*/")])]⟩

theorem closedOnce_replacement_iff_tagged :
    taggedUnit.IsRead ∧ render (.ofNames ["uses"]) starExtraction usesRules =
      .ok [⟨"Post", "Post"⟩, ⟨"Tag*/", "Tag*/"⟩] ∧
    ∃ b p, locate taggedUnit taggedClass = .ok b ∧ ClosedOnce b.lines ∧
      merge (.ofNames ["uses"]) true taggedUnit taggedClass starExtraction usesRules = .ok (some p) ∧
      ¬ ClosedOnce p.replacement ∧ ∀ l ∈ p.replacement, Line.Whole l := by
  have hRead : taggedUnit.IsRead := .inl ⟨_, rfl⟩
  have hRender : render (.ofNames ["uses"]) starExtraction usesRules =
      .ok [⟨"Post", "Post"⟩, ⟨"Tag*/", "Tag*/"⟩] := by decide +kernel
  have hMerge : merge (.ofNames ["uses"]) true taggedUnit taggedClass starExtraction usesRules =
      .ok (some ⟨1, 2, ["/** A\n".toList, " * @property Post $Post\n".toList,
        " * @property Tag*/ $Tag*/\n".toList, " */\n".toList]⟩) := by decide +kernel
  have hLocate : locate taggedUnit taggedClass = .ok ⟨["/** A @property Old $Old\n".toList,
      " * @property Tag $Tag */\n".toList], ["/** A @property Old $Old\n".toList,
        " * @property Tag $Tag */\n".toList], 1, [], ['\n']⟩ := by decide +kernel
  have hOnce : ClosedOnce ["/** A @property Old $Old\n".toList, " * @property Tag $Tag */\n".toList] := by
    decide +kernel
  obtain ⟨hClosed, hWhole⟩ := closedOnce_replacement_iff hRead hRender hLocate hOnce hMerge
  refine ⟨hRead, hRender, _, _, hLocate, hOnce, hMerge, ?_, hWhole.mpr ?_⟩
  · rw [hClosed]
    decide +kernel
  · decide +kernel

def spilledUnit : SourceUnit :=
  .ofText
    "<?php\nclass A extends Controller \x7b var $uses = ['Po*/st', \"Ta\\ng\"]; \x7d\n".toList

def spilledClass : ClassNode :=
  ⟨"A", some "Controller", 2, none,
    [⟨"uses", some (.list [.bare (.string "Po*/st"), .bare (.string "Ta\ng")])⟩]⟩

/-- One name ends the comment and the other one ends its line. -/
theorem closedOnce_replacement_spilled :
    RuleTable.builtin.fault? = none ∧ Php.classes ⟨"a.php"⟩ spilledUnit = .ok [spilledClass] ∧
    ∃ extraction rules b p,
      (Extractor.ofNames RuleTable.builtin.attributeNames.keys).extract ⟨"a.php"⟩ spilledClass =
        .ok extraction ∧
      RuleTable.builtin.rulesFor? "Controller" = some rules ∧
      locate spilledUnit spilledClass = .ok b ∧ ClosedOnce b.lines ∧
      merge (.ofNames RuleTable.builtin.attributeNames.keys) false spilledUnit spilledClass extraction
        rules = .ok (some p) ∧
      ¬ ClosedOnce p.replacement ∧ ¬ ∀ l ∈ p.replacement, Line.Whole l := by
  refine ⟨by decide +kernel, by decide +kernel, ⟨⟨⟨"a.php"⟩, 2⟩, OrderedMap.ofList [("uses",
    SortedMap.ofList [("Po*/st", "Po*/st"), ("Ta\ng", "Ta\ng")])]⟩,
    OrderedMap.ofList [("components", .appendSuffix "Component"), ("uses", .identity)],
    ⟨["/**\n".toList, " */\n".toList], [], 1, [], ['\n']⟩,
    ⟨1, 0, ["/**\n".toList, " * @property Po*/st $Po*/st\n".toList,
      " * @property Ta\ng $Ta\ng\n".toList, " */\n".toList]⟩, ?_, ?_, ?_, ?_, ?_, ?_, ?_⟩
  case refine_7 =>
    intro hAll
    have hLine : Line.Whole (" * @property Ta\n".toList ++ "g $Ta\ng\n".toList) :=
      hAll _ (by decide +kernel)
    exact hLine.not_mem_of_append (by decide +kernel) (by decide +kernel)
  all_goals decide +kernel

end Merge

end DocWiring
