import DocWiring.Proofs.DocBlock.Matching
import DocWiring.Proofs.Merge.Insertion

/-! # Every annotation once

After a merge the block has every annotation that the class should have, also when there was nothing to
change, and no annotation is added twice or beside one that differs from it in the case of letters only.
-/

namespace DocWiring

namespace Annotation

/-- The annotations differ at most in the case of letters. -/
structure SameAs (a c : Annotation) : Prop where
  typeName : sameLetters a.typeName.toList c.typeName.toList = true
  symbol : sameLetters a.symbol.toList c.symbol.toList = true

theorem SameAs.agrees_eq {a c : Annotation} (h : a.SameAs c) (found : List Char × List Char) :
    a.agrees found = c.agrees found := by
  simp only [agrees, sameLetters, sameLetters_iff.mp h.typeName, sameLetters_iff.mp h.symbol]

end Annotation

namespace DocBlock

open Annotation

theorem contains_congr {b : DocBlock} {a c : Annotation} (h : a.SameAs c) :
    b.contains a = b.contains c := by
  rw [contains, contains, funext h.agrees_eq]

theorem findAll_closingLine {indent : List Char} (hStar : '*' ∉ indent) :
    findAll (closingLine indent) = [] := by
  have hFree : '*' ∉ indent ++ [' '] := by simpa using hStar
  have hScan := scan_append hFree closing
  rw [List.append_assoc, List.singleton_append] at hScan
  rw [findAll, closingLine, hScan]
  decide

/-- What the opening line loses starts with the tag or with the white space before it, so it does not
continue a symbol. -/
theorem exists_lost_of_clearedOpening {l : Line} (hWhole : Line.Whole l) (hTagged : isTagged l = true) :
    ∃ lost, l.content = Line.content (clearedOpening l) ++ lost ∧ EndsSymbol lost := by
  obtain ⟨before, after, hCut, _, hKept, _⟩ := exists_cut_of_isTagged hWhole hTagged
  obtain ⟨blanks, hTrim, hBlank⟩ := Text.trimEnd_append_blank before
  refine ⟨blanks ++ (tag ++ after), ?_, ?_⟩
  · rw [hKept, ← List.append_assoc, ← hTrim, ← List.append_assoc]
    exact Text.eq_of_cutFirst? hCut
  · cases blanks with
    | nil =>
      rintro c ⟨⟩
      decide +kernel
    | cons d _ =>
      rintro c ⟨⟩
      have hd := hBlank d List.mem_cons_self
      rw [← Bool.not_eq_true]
      intro hWord
      rw [Text.isBlank_of_isWord hWord] at hd
      cases hd

/-- Clearing does not make up annotations. -/
theorem Framed.contains_of_clear {b : DocBlock} {first last : Line} {middle : List Line}
    (h : Framed b first middle last) {a : Annotation} (hDollar : a.typeName.toList.head? ≠ some '$')
    (hMet : b.clear.contains a = true) : b.contains a = true := by
  obtain ⟨l, hl, hFound⟩ := contains_iff.mp hMet
  rw [clear_eq h.lines] at hl
  rcases List.mem_cons.mp hl with rfl | hl
  · -- The opening line spells what its first part spells.
    have hMem : first ∈ b.lines := by simp [h.lines]
    rw [exists_agrees_iff_spelledIn hDollar] at hFound
    refine contains_iff.mpr ⟨first, hMem, (exists_agrees_iff_spelledIn hDollar).mpr ?_⟩
    unfold openingAfter at hFound
    split at hFound
    next hTagged =>
      obtain ⟨lost, hContent, hEnds⟩ := exists_lost_of_clearedOpening (h.whole first hMem) hTagged
      rw [hContent]
      exact hFound.append hEnds
    next => exact hFound
  rcases List.mem_append.mp hl with hl | hl
  · have hMem := (List.mem_filter.mp hl).1
    exact contains_iff.mpr ⟨l, by simp [h.lines, hMem], hFound⟩
  · obtain rfl := List.mem_singleton.mp hl
    have hMem : last ∈ b.lines := by simp [h.lines]
    unfold closingAfter at hFound
    split at hFound
    next =>
      obtain ⟨found, hFound, _⟩ := hFound
      rw [content_clearedClosing b (h.whole last hMem),
        findAll_closingLine (h.opens.not_mem (by decide))] at hFound
      cases hFound
    next => exact contains_iff.mpr ⟨last, hMem, hFound⟩

/-- A framed block of the lines that a located block stands for has the same lines as that block. -/
theorem lines_eq_of_replaced_framed {u : SourceUnit} {cls : ClassNode} {b c : DocBlock}
    (hCut : Line.AreCut u.lines) (h : locate u cls = .ok b) {first last : Line} {middle : List Line}
    (hFramed : Framed c first middle last) (hLines : c.lines = b.replaced) : b.lines = b.replaced := by
  have hWhole : ∀ l ∈ b.replaced, Line.Whole l := hLines ▸ hFramed.whole
  have hLong : 2 ≤ b.replaced.length := by simp [← hLines, hFramed.lines]
  cases located_of_locate h with
  | single _ hBlock hSingle =>
    obtain ⟨_, _, _, _, _, hReplaced, _⟩ := ofComment_of_single hBlock hSingle
    simp [hReplaced] at hLong
  | several _ hBlock hSeveral =>
    obtain ⟨opened, between, closed, _, _, _, _, hReplaced, _, _, _, _, hOwn⟩ :=
      ofComment_of_several hCut hBlock hSeveral
    have hEol := (hWhole closed (by simp [hReplaced])).isEol.ne_nil
    rw [hOwn, hReplaced, if_neg (by simpa using hEol)]
  | bare _ hBlock =>
    obtain ⟨_, hReplaced, _⟩ := framed_of_blank hBlock
    simp [hReplaced] at hLong

end DocBlock

namespace Merge

open DocBlock

variable {b : DocBlock} {annotations : List Annotation}

theorem not_contains_of_mem_missing {a : Annotation} (h : a ∈ missing b annotations) :
    b.contains a = false := by
  induction annotations generalizing b with
  | nil => cases h
  | cons c rest ih =>
    cases hMet : b.contains c with
    | true =>
      rw [missing, if_pos hMet] at h
      exact ih h
    | false =>
      rw [missing, if_neg (by simp [hMet])] at h
      rcases List.mem_cons.mp h with rfl | h
      · exact hMet
      · rw [← Bool.not_eq_true]
        intro hEarlier
        have hLater := ih h
        rw [contains_of_subset (subset_insert b c) hEarlier] at hLater
        cases hLater

/-- An annotation that has been added is found from then on, so none is added that is the same. -/
theorem pairwise_missing (hEol : Line.IsEol b.eol) (hStar : '*' ∉ b.indent)
    (hAnn : ∀ a ∈ annotations, a.Legible) :
    (missing b annotations).Pairwise fun a c => ¬ a.SameAs c := by
  induction annotations generalizing b with
  | nil => exact List.Pairwise.nil
  | cons a rest ih =>
    obtain ⟨ha, hRest⟩ := List.forall_mem_cons.mp hAnn
    unfold missing
    split
    next => exact ih hEol hStar hRest
    next =>
      refine List.pairwise_cons.mpr ⟨fun c hc hSame => ?_, ih (by simpa) (by simpa) hRest⟩
      have hMet := contains_insert ha hEol hStar
      rw [contains_congr hSame, not_contains_of_mem_missing hc] at hMet
      cases hMet

/-- A block that needs no patch has everything it should have: either all of it is met once the old
annotations are taken out, or taking them out and putting them back in gives the same text. -/
theorem contains_of_mergeBlock_eq_none {remove : Bool} {u : SourceUnit} {cls : ClassNode}
    (hCut : Line.AreCut u.lines) (hLocate : locate u cls = .ok b)
    (hAnn : ∀ a ∈ annotations, a.Legible ∧ a.typeName.toList.head? ≠ some '$')
    (h : mergeBlock remove annotations b = none) : ∀ a ∈ annotations, b.contains a = true := by
  intro a ha
  obtain ⟨_, _, _, _, hFramed⟩ := framed_of_locate hCut hLocate
  obtain ⟨_, _, _, hBase⟩ := exists_framed_base remove ⟨_, _, _, hFramed⟩
  rcases cases_of_mergeBlock_eq_none h with hNone | hSame
  · have hMet := missing_eq_nil_iff.mp hNone a ha
    cases remove with
    | false => exact hMet
    | true => exact hFramed.contains_of_clear (hAnn a ha).2 hMet
  · have hMet := hBase.contains_foldl_insert (fun a ha => (hAnn a ha).1) a ha
    obtain ⟨_, hFinal⟩ := hBase.foldl_insert fun a ha => (hAnn a ha).1.not_mem_saying
    have hLines := lines_eq_of_replaced_framed hCut hLocate hFinal hSame
    exact contains_of_subset (hSame.trans hLines.symm ▸ List.Subset.refl _) hMet

/-- A merge is complete and adds nothing twice. -/
theorem merge_complete {x : Extractor} {remove : Bool} {u : SourceUnit} {cls : ClassNode}
    {extraction : Extraction} {rules : AttributeRules} (hRead : u.IsRead)
    (hRender : render x extraction rules = .ok annotations)
    (hAnn : ∀ a ∈ annotations, a.Legible ∧ a.typeName.toList.head? ≠ some '$') :
    (∀ p, merge x remove u cls extraction rules = .ok (some p) →
      ∃ b init last, locate u cls = .ok b ∧ (base remove b).lines = init ++ [last] ∧
        p.replacement = init ++ (missing (base remove b) annotations).map
          (fun a => a.line b.indent b.eol) ++ [last] ∧
        ∀ a ∈ annotations, ({ b with lines := p.replacement } : DocBlock).contains a = true) ∧
    (merge x remove u cls extraction rules = .ok none →
      ∀ a ∈ annotations, ∃ b, locate u cls = .ok b ∧ b.contains a = true) ∧
    ∀ b, locate u cls = .ok b →
      (missing (base remove b) annotations).Pairwise (fun a c => ¬ a.SameAs c) ∧
        ∀ a ∈ missing (base remove b) annotations, (base remove b).contains a = false := by
  refine ⟨?_, ?_, ?_⟩
  · intro p hMerge
    obtain ⟨rendered, b, hRendered, hLocate, hBlock⟩ := merge_eq_ok_some_iff.mp hMerge
    obtain rfl := Except.ok.inj (hRender.symm.trans hRendered)
    obtain ⟨_, _, rfl⟩ := mergeBlock_eq_some_iff.mp hBlock
    obtain ⟨_, hFramed⟩ := framed_of_locate hRead.areCut hLocate
    obtain ⟨first, middle, last, hBase⟩ := exists_framed_base remove hFramed
    have hLines := foldl_insert_lines annotations (first :: middle) hBase.lines
    refine ⟨b, first :: middle, last, hLocate, hBase.lines, ?_, ?_⟩
    · simpa using hLines
    · exact hBase.contains_foldl_insert fun a ha => (hAnn a ha).1
  · intro hMerge a ha
    obtain ⟨b, hLocate, hBlock⟩ := merge_eq_ok_none hRender (List.ne_nil_of_mem ha) hMerge
    exact ⟨b, hLocate, contains_of_mergeBlock_eq_none hRead.areCut hLocate hAnn hBlock a ha⟩
  · intro b hLocate
    obtain ⟨_, hFramed⟩ := framed_of_locate hRead.areCut hLocate
    obtain ⟨_, _, _, hBase⟩ := exists_framed_base remove hFramed
    exact ⟨pairwise_missing hBase.isEol (hBase.opens.not_mem (by decide)) fun a ha => (hAnn a ha).1,
      fun a ha => not_contains_of_mem_missing ha⟩

/-- An annotation in capitals on the opening line, which stays, and one to take out on either side. -/
def shoutingUnit : SourceUnit :=
  .ofText "<?php\n/** @PROPERTY Post $post @property Old $Old\n * @property Tag $Tag */\nclass A {}\n".toList

def shoutingClass : ClassNode :=
  ⟨"A", some "Controller", 4, some ⟨2, 3⟩, []⟩

/-- The second attribute wires a tag that differs from the first one's in case only. -/
def echoExtraction : Extraction :=
  ⟨⟨⟨"a.php"⟩, 4⟩, OrderedMap.ofList [("uses", SortedMap.ofList [("Post", "Post"), ("Tag", "Tag")]),
    ("helpers", SortedMap.ofList [("tag", "TAG")])]⟩

def echoRules : AttributeRules :=
  OrderedMap.ofList [("uses", .identity), ("helpers", .identity)]

theorem merge_complete_shouting :
    shoutingUnit.IsRead ∧
    render (.ofNames ["uses", "helpers"]) echoExtraction echoRules =
      .ok [⟨"Post", "Post"⟩, ⟨"Tag", "Tag"⟩, ⟨"TAG", "tag"⟩] ∧
    (∀ a ∈ [(⟨"Post", "Post"⟩ : Annotation), ⟨"Tag", "Tag"⟩, ⟨"TAG", "tag"⟩],
      a.Legible ∧ a.typeName.toList.head? ≠ some '$') ∧
    ∃ p b, merge (.ofNames ["uses", "helpers"]) true shoutingUnit shoutingClass echoExtraction echoRules =
        .ok (some p) ∧
      p.replacement = ["/** @PROPERTY Post $post\n".toList, " * @property Tag $Tag\n".toList,
        " */\n".toList] ∧
      (∀ a ∈ [(⟨"Post", "Post"⟩ : Annotation), ⟨"Tag", "Tag"⟩, ⟨"TAG", "tag"⟩],
        ({ b with lines := p.replacement } : DocBlock).contains a = true) ∧
      missing (base true b) [⟨"Post", "Post"⟩, ⟨"Tag", "Tag"⟩, ⟨"TAG", "tag"⟩] = [⟨"Tag", "Tag"⟩] := by
  have hRead : shoutingUnit.IsRead := .inl ⟨_, rfl⟩
  have hRender : render (.ofNames ["uses", "helpers"]) echoExtraction echoRules =
      .ok [⟨"Post", "Post"⟩, ⟨"Tag", "Tag"⟩, ⟨"TAG", "tag"⟩] := by decide +kernel
  have hAnn : ∀ a ∈ [(⟨"Post", "Post"⟩ : Annotation), ⟨"Tag", "Tag"⟩, ⟨"TAG", "tag"⟩],
      a.Legible ∧ a.typeName.toList.head? ≠ some '$' := by decide +kernel
  have hMerge : merge (.ofNames ["uses", "helpers"]) true shoutingUnit shoutingClass echoExtraction
      echoRules = .ok (some ⟨1, 2, ["/** @PROPERTY Post $post\n".toList,
        " * @property Tag $Tag\n".toList, " */\n".toList]⟩) := by decide +kernel
  have hMissing : (locate shoutingUnit shoutingClass).map (fun b => missing (base true b)
      [⟨"Post", "Post"⟩, ⟨"Tag", "Tag"⟩, ⟨"TAG", "tag"⟩]) = .ok [⟨"Tag", "Tag"⟩] := by decide +kernel
  obtain ⟨b, _, _, hLocate, _, _, hAll⟩ := (merge_complete hRead hRender hAnn).1 _ hMerge
  rw [hLocate] at hMissing
  exact ⟨hRead, hRender, hAnn, _, b, hMerge, rfl, hAll, Except.ok.inj hMissing⟩

end Merge

end DocWiring
