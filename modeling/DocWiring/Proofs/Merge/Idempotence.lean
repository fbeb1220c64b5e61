import DocWiring.Proofs.Merge.Insertion
import DocWiring.Proofs.Patch

/-! # Merging twice

The block that a merge writes is found again where it was put, and merging it again changes nothing:
every annotation stands in it, and when annotations are taken out first, the same ones come back.
-/

namespace DocWiring

namespace Merge

open DocBlock

/-- A finished block, as it is found where it was put, needs no patch. -/
theorem mergeBlock_finished {remove : Bool} {b final : DocBlock} {annotations : List Annotation}
    (h : ∃ first middle last, Framed b first middle last)
    (hAnn : ∀ a ∈ annotations, a.Legible)
    (hFinal : final = annotations.foldl insert (base remove b)) (start : Nat) :
    mergeBlock remove annotations (final.movedTo final.lines start) = none := by
  cases hMerge : mergeBlock remove annotations (final.movedTo final.lines start) with
  | none => rfl
  | some p =>
    obtain ⟨hMissing, hDiffer, _⟩ := mergeBlock_eq_some_iff.mp hMerge
    obtain ⟨first, middle, last, hFramed⟩ := h
    cases remove with
    | false =>
      -- Without clearing, all the annotations are met.
      apply absurd _ hMissing
      rw [missing_eq_nil_iff]
      intro a ha
      have hMet := hFramed.contains_foldl_insert hAnn a ha
      rw [hFinal]
      exact hMet
    | true =>
      -- Clearing gives back the block that the annotations were added to.
      obtain ⟨hCleared, hBare⟩ := hFramed.clear
      apply absurd _ hDiffer
      have hBack : (final.movedTo final.lines start).clear =
          b.clear.movedTo final.lines start := by
        rw [clear_movedTo, hFinal, base, if_pos rfl, clear_foldl_insert hCleared.lines,
          clear_eq_self hCleared.lines hBare]
      have hAgain : (annotations.foldl insert (b.clear.movedTo final.lines start)).lines =
          final.lines := by
        rw [foldl_insert_movedTo, hFinal]
        rfl
      rw [base, if_pos rfl, hBack, hAgain]
      rfl

/-- Merging again after a patch has been applied changes nothing. -/
theorem merge_applied_eq_none {x : Extractor} {remove : Bool} {u : SourceUnit} {cls : ClassNode}
    {extraction : Extraction} {rules : AttributeRules} {p : Patch} (hRead : u.IsRead)
    (hLegible : ∀ annotations, render x extraction rules = .ok annotations →
      ∀ a ∈ annotations, a.Legible)
    (hMerge : merge x remove u cls extraction rules = .ok (some p)) :
    ∃ updated, Patch.applyAll u [p] = .ok updated ∧
      merge x remove updated
        { cls with
          startLine := ((cls.startLine : Int) + p.delta).toNat
          docComment := some ⟨p.start + 1, p.start + p.replacement.length⟩ }
        extraction rules = .ok none := by
  obtain ⟨annotations, b, hRender, hLocate, hBlock⟩ := merge_eq_ok_some_iff.mp hMerge
  obtain ⟨_, _, rfl⟩ := mergeBlock_eq_some_iff.mp hBlock
  have hAnn := hLegible annotations hRender
  obtain ⟨⟨above, below, hAbove, hUnit⟩, hFrame⟩ := framed_of_locate hRead.areCut hLocate
  obtain ⟨_, _, _, hBase⟩ := exists_framed_base remove hFrame
  obtain ⟨_, hFinal⟩ := hBase.foldl_insert fun a ha => (hAnn a ha).not_mem_saying
  refine ⟨_, Patch.applyAll_singleton hUnit hAbove rfl, ?_⟩
  rw [merge_eq_ok hRender (hFinal.locate_eq rfl (by rw [hAbove])), mergeBlock_finished hFrame hAnn rfl]

/-- A comment on one line, with carriage returns and an annotation that is out of date. -/
def staleUnit : SourceUnit :=
  .ofText "<?php\r\n  /** Posts @property Old $Old */\r\n  class A {}\r\n".toList

def staleClass : ClassNode :=
  ⟨"A", some "Controller", 3, some ⟨2, 2⟩, [⟨"uses", some (.list [.bare (.string "Post")])⟩]⟩

theorem legible_post : Annotation.Legible ⟨"Post", "Post"⟩ :=
  Annotation.Wordy.legible (by decide +kernel)

theorem merge_stale_twice :
    merge (.ofNames ["uses"]) true staleUnit staleClass postExtraction usesRules =
        .ok (some ⟨1, 1, ["  /** Posts\r\n".toList, "   * @property Post $Post\r\n".toList,
          "   */\r\n".toList]⟩) ∧
      ∃ updated, Patch.applyAll staleUnit [⟨1, 1, ["  /** Posts\r\n".toList,
          "   * @property Post $Post\r\n".toList, "   */\r\n".toList]⟩] = .ok updated ∧
        merge (.ofNames ["uses"]) true updated { staleClass with startLine := 5, docComment := some ⟨2, 4⟩ }
          postExtraction usesRules = .ok none := by
  have hMerge : merge (.ofNames ["uses"]) true staleUnit staleClass postExtraction usesRules =
      .ok (some ⟨1, 1, ["  /** Posts\r\n".toList, "   * @property Post $Post\r\n".toList,
        "   */\r\n".toList]⟩) := by decide +kernel
  have hRender : render (.ofNames ["uses"]) postExtraction usesRules = .ok [⟨"Post", "Post"⟩] := by
    decide +kernel
  refine ⟨hMerge, merge_applied_eq_none (.inl ⟨_, rfl⟩) ?_ hMerge⟩
  intro annotations h a ha
  obtain rfl := Except.ok.inj (hRender.symm.trans h)
  obtain rfl := List.mem_singleton.mp ha
  exact legible_post

end Merge

end DocWiring
