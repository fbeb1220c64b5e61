import DocWiring.Proofs.DocBlock.Relocation
import DocWiring.Proofs.Merge.Idempotence

/-! # Merging into a file that has been changed elsewhere

A class whose block needed no patch needs none where the block has moved to, and a class whose block
has been written needs none where the block stands.
-/

namespace DocWiring

namespace Merge

open DocBlock

theorem base_movedTo (remove : Bool) (b : DocBlock) (replaced : List Line) (start : Nat) :
    base remove (b.movedTo replaced start) = (base remove b).movedTo replaced start := by
  cases remove with
  | false => rfl
  | true => exact clear_movedTo b replaced start

theorem missing_movedTo (b : DocBlock) (replaced : List Line) (start : Nat)
    (annotations : List Annotation) :
    missing (b.movedTo replaced start) annotations = missing b annotations := by
  induction annotations generalizing b with
  | nil => rfl
  | cons a rest ih =>
    have hSame : (b.movedTo replaced start).contains a = b.contains a := rfl
    rw [missing, missing, hSame, insert_movedTo, ih, ih]

theorem mergeBlock_movedTo {remove : Bool} {annotations : List Annotation} {b : DocBlock}
    (h : mergeBlock remove annotations b = none) (start : Nat) :
    mergeBlock remove annotations (b.movedTo b.replaced start) = none := by
  cases hMoved : mergeBlock remove annotations (b.movedTo b.replaced start) with
  | none => rfl
  | some p =>
    obtain ⟨hMissing, hDiffer, _⟩ := mergeBlock_eq_some_iff.mp hMoved
    rw [base_movedTo, missing_movedTo] at hMissing
    rw [base_movedTo, foldl_insert_movedTo] at hDiffer
    have hSome := mergeBlock_eq_some_iff.mpr ⟨hMissing, hDiffer, rfl⟩
    rw [h] at hSome
    cases hSome

variable {x : Extractor} {remove : Bool} {u u' : SourceUnit} {cls cls' : ClassNode}
  {extraction extraction' : Extraction} {rules : AttributeRules}

theorem render_congr (h : extraction'.attributes = extraction.attributes) :
    render x extraction' rules = render x extraction rules := by
  rw [render, render, h]

theorem merge_of_nil (hRender : render x extraction rules = .ok []) :
    merge x remove u cls extraction rules = .ok none := by
  unfold merge
  rw [hRender]
  rfl

/-- A class that needs no patch needs none where its block has moved to. -/
theorem merge_of_moved (hMoved : Moved u cls u' cls')
    (hAttributes : extraction'.attributes = extraction.attributes)
    (h : merge x remove u cls extraction rules = .ok none) :
    merge x remove u' cls' extraction' rules = .ok none := by
  cases hRender : render x extraction rules with
  | error e =>
    unfold merge at h
    rw [hRender] at h
    cases h
  | ok annotations =>
    have hRender' := (render_congr hAttributes).trans hRender
    by_cases hNil : annotations = []
    · rw [hNil] at hRender'
      exact merge_of_nil hRender'
    · obtain ⟨b, hLocate, hNone⟩ := merge_eq_ok_none hRender hNil h
      obtain ⟨start, hLocate'⟩ := hMoved b hLocate
      rw [merge_eq_ok hRender' hLocate', mergeBlock_movedTo hNone]

end Merge

end DocWiring
