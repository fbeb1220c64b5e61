import DocWiring.Merge
import DocWiring.Proofs.DocBlock.Location

/-! # Adding the missing annotations

Annotations are added one after another before the closing line.  What is added is what was missing
when its turn came, and afterwards nothing is missing.
-/

namespace DocWiring

attribute [ext] DocBlock

namespace Merge

theorem missing_sublist (b : DocBlock) (annotations : List Annotation) :
    (missing b annotations).Sublist annotations := by
  induction annotations generalizing b with
  | nil => exact List.Sublist.refl []
  | cons a rest ih =>
    unfold missing
    split
    next => exact (ih b).cons a
    next => exact (ih (b.insert a)).cons_cons a

theorem mem_of_mem_missing {b : DocBlock} {annotations : List Annotation} {a : Annotation}
    (h : a ∈ missing b annotations) : a ∈ annotations :=
  (missing_sublist b annotations).subset h

end Merge

namespace DocBlock

variable {b : DocBlock} {annotations : List Annotation}

theorem samePlace_foldl_insert (b : DocBlock) (annotations : List Annotation) :
    SamePlace b (annotations.foldl insert b) := by
  induction annotations generalizing b with
  | nil => exact SamePlace.refl b
  | cons a rest ih => exact (samePlace_insert b a).trans (ih (b.insert a))

@[simp] theorem foldl_insert_indent (b : DocBlock) (annotations : List Annotation) :
    (annotations.foldl insert b).indent = b.indent :=
  (samePlace_foldl_insert b annotations).indent

@[simp] theorem foldl_insert_eol (b : DocBlock) (annotations : List Annotation) :
    (annotations.foldl insert b).eol = b.eol :=
  (samePlace_foldl_insert b annotations).eol

@[simp] theorem foldl_insert_start (b : DocBlock) (annotations : List Annotation) :
    (annotations.foldl insert b).start = b.start :=
  (samePlace_foldl_insert b annotations).start

@[simp] theorem foldl_insert_replaced (b : DocBlock) (annotations : List Annotation) :
    (annotations.foldl insert b).replaced = b.replaced :=
  (samePlace_foldl_insert b annotations).replaced

theorem insert_movedTo (b : DocBlock) (replaced : List Line) (start : Nat) (a : Annotation) :
    (b.movedTo replaced start).insert a = (b.insert a).movedTo replaced start := by
  have hSame : (b.movedTo replaced start).contains a = b.contains a := rfl
  rw [insert, insert, hSame]
  split <;> rfl

theorem foldl_insert_movedTo (b : DocBlock) (annotations : List Annotation)
    (replaced : List Line) (start : Nat) :
    annotations.foldl insert (b.movedTo replaced start) =
      (annotations.foldl insert b).movedTo replaced start := by
  induction annotations generalizing b with
  | nil => rfl
  | cons a rest ih => rw [List.foldl_cons, insert_movedTo, ih, List.foldl_cons]

theorem clearLines_movedTo (b : DocBlock) (replaced : List Line) (start n i : Nat) (ls : List Line) :
    (b.movedTo replaced start).clearLines n i ls = b.clearLines n i ls := by
  induction ls generalizing i with
  | nil => rfl
  | cons l ls ih =>
    rw [clearLines, clearLines, ih]
    rfl

theorem clear_movedTo (b : DocBlock) (replaced : List Line) (start : Nat) :
    (b.movedTo replaced start).clear = b.clear.movedTo replaced start := by
  have hLines := clearLines_movedTo b replaced start (b.lines.length - 1) 0 b.lines
  exact congrArg (fun kept : List Line × Nat => { b.movedTo replaced start with lines := kept.1 }) hLines

/-- The lines that are added are those of the missing annotations, in order, right before the last
line. -/
theorem foldl_insert_lines (annotations : List Annotation) (init : List Line) {last : Line}
    (h : b.lines = init ++ [last]) :
    (annotations.foldl insert b).lines =
      init ++ (Merge.missing b annotations).map (fun a => a.line b.indent b.eol) ++ [last] := by
  induction annotations generalizing b init with
  | nil => simpa [Merge.missing] using h
  | cons a rest ih =>
    cases hMet : b.contains a with
    | true => rw [List.foldl_cons, insert_of_contains hMet, ih init h, Merge.missing, if_pos hMet]
    | false =>
      have hInsert := insert_of_not_contains hMet init h
      have hLines : (b.insert a).lines = init ++ [a.line b.indent b.eol] ++ [last] := by
        rw [hInsert]
      rw [List.foldl_cons, ih _ hLines, Merge.missing, if_neg (by simp [hMet]), insert_indent,
        insert_eol, List.map_cons, List.append_assoc init, List.singleton_append]

/-- The lines afterwards are the ones before and those of what was missing. -/
theorem Framed.mem_foldl_insert_iff {first last : Line} {middle : List Line}
    (h : Framed b first middle last) {l : Line} : l ∈ (annotations.foldl DocBlock.insert b).lines ↔
      l ∈ b.lines ∨ ∃ a ∈ Merge.missing b annotations, a.line b.indent b.eol = l := by
  rw [foldl_insert_lines annotations (first :: middle) h.lines, h.lines, ← List.cons_append]
  simp only [List.mem_append, List.mem_map]
  exact or_right_comm

theorem subset_foldl_insert (b : DocBlock) (annotations : List Annotation) :
    b.lines ⊆ (annotations.foldl insert b).lines := by
  induction annotations generalizing b with
  | nil => exact List.Subset.refl _
  | cons a rest ih => exact List.Subset.trans (subset_insert b a) (ih (b.insert a))

theorem Framed.foldl_insert {first last : Line} {middle : List Line}
    (h : Framed b first middle last) (hAnn : ∀ a ∈ annotations, '\n' ∉ a.saying) :
    ∃ more, Framed (annotations.foldl DocBlock.insert b) first more last := by
  induction annotations generalizing b middle with
  | nil => exact ⟨middle, h⟩
  | cons a rest ih =>
    obtain ⟨ha, hRest⟩ := List.forall_mem_cons.mp hAnn
    obtain ⟨more, hMore⟩ := h.insert ha
    exact ih hMore hRest

theorem Framed.contains_foldl_insert {first last : Line} {middle : List Line}
    (h : Framed b first middle last) (hAnn : ∀ a ∈ annotations, a.Legible) :
    ∀ a ∈ annotations, (annotations.foldl DocBlock.insert b).contains a = true := by
  induction annotations generalizing b middle with
  | nil => simp
  | cons a rest ih =>
    obtain ⟨ha, hRest⟩ := List.forall_mem_cons.mp hAnn
    obtain ⟨more, hMore⟩ := h.insert ha.not_mem_saying
    intro c hc
    rcases List.mem_cons.mp hc with rfl | hc
    · exact contains_of_subset (subset_foldl_insert (b.insert c) rest) (h.contains_insert ha)
    · exact ih hMore hRest c hc

/-- Clearing takes out everything that was added. -/
theorem clear_foldl_insert {first last : Line} {middle : List Line}
    (hLines : b.lines = first :: (middle ++ [last])) : (annotations.foldl insert b).clear = b.clear := by
  have hAll := foldl_insert_lines annotations (first :: middle) hLines
  have hAdded : ((Merge.missing b annotations).map fun a => a.line b.indent b.eol).filter
      (fun l => !isTagged l) = [] := by
    rw [List.filter_eq_nil_iff]
    intro l hl
    obtain ⟨a, _, rfl⟩ := List.mem_map.mp hl
    simp [isTagged_line]
  rw [List.cons_append, List.cons_append] at hAll
  apply DocBlock.ext
  · rw [clear_eq hAll, clear_eq hLines]
    simp [List.filter_append, hAdded, closingAfter, clearedClosing]
  all_goals simp

end DocBlock

namespace Merge

open DocBlock

theorem missing_eq_nil_iff {b : DocBlock} {annotations : List Annotation} :
    missing b annotations = [] ↔ ∀ a ∈ annotations, b.contains a = true := by
  induction annotations with
  | nil => simp [missing]
  | cons a rest ih =>
    cases hMet : b.contains a with
    | true => simp [missing, hMet, ih]
    | false => simp [missing, hMet]

/-- The block that annotations are added to. -/
def base (remove : Bool) (located : DocBlock) : DocBlock :=
  if remove then located.clear else located

@[simp] theorem base_start (remove : Bool) (b : DocBlock) : (base remove b).start = b.start := by
  cases remove <;> simp [base]

@[simp] theorem base_replaced (remove : Bool) (b : DocBlock) :
    (base remove b).replaced = b.replaced := by
  cases remove <;> simp [base]

@[simp] theorem base_indent (remove : Bool) (b : DocBlock) : (base remove b).indent = b.indent := by
  cases remove <;> simp [base]

@[simp] theorem base_eol (remove : Bool) (b : DocBlock) : (base remove b).eol = b.eol := by
  cases remove <;> simp [base]

theorem mergeBlock_eq_some_iff {remove : Bool} {annotations : List Annotation} {b : DocBlock}
    {p : Patch} :
    mergeBlock remove annotations b = some p ↔
      missing (base remove b) annotations ≠ [] ∧
        (annotations.foldl insert (base remove b)).lines ≠ b.replaced ∧
        p = ⟨b.start, b.replaced.length, (annotations.foldl insert (base remove b)).lines⟩ := by
  have hBase : (if remove = true then b.clear else b) = base remove b := rfl
  unfold mergeBlock toPatch?
  simp only [hBase, List.isEmpty_iff]
  split
  next hNone => simp [hNone]
  next hSome =>
    simp only [foldl_insert_replaced, base_replaced, foldl_insert_start, base_start]
    split
    next hSame => simp [hSame]
    next hDiffer => simp [hSome, hDiffer, eq_comm]

theorem cases_of_mergeBlock_eq_none {remove : Bool} {annotations : List Annotation} {b : DocBlock}
    (h : mergeBlock remove annotations b = none) :
    missing (base remove b) annotations = [] ∨
      (annotations.foldl insert (base remove b)).lines = b.replaced := by
  by_contra hNot
  obtain ⟨hMissing, hDiffer⟩ := not_or.mp hNot
  rw [mergeBlock_eq_some_iff.mpr ⟨hMissing, hDiffer, rfl⟩] at h
  cases h

theorem merge_eq_ok_some_iff {x : Extractor} {remove : Bool} {u : SourceUnit} {cls : ClassNode}
    {extraction : Extraction} {rules : AttributeRules} {p : Patch} :
    merge x remove u cls extraction rules = .ok (some p) ↔
      ∃ annotations b, render x extraction rules = .ok annotations ∧ locate u cls = .ok b ∧
        mergeBlock remove annotations b = some p := by
  unfold merge
  cases hRender : render x extraction rules with
  | error e => simp [bind, Except.bind]
  | ok annotations =>
    cases hLocate : locate u cls with
    | error e =>
      by_cases hNil : annotations = [] <;> simp [bind, Except.bind, pure, Except.pure, hNil]
    | ok b =>
      by_cases hNil : annotations = []
      · simp [bind, Except.bind, pure, Except.pure, hNil, mergeBlock, missing]
      · simp [bind, Except.bind, pure, Except.pure, hNil]

theorem merge_eq_ok {x : Extractor} {remove : Bool} {u : SourceUnit} {cls : ClassNode}
    {extraction : Extraction} {rules : AttributeRules} {annotations : List Annotation}
    {b : DocBlock} (hRender : render x extraction rules = .ok annotations)
    (hLocate : locate u cls = .ok b) :
    merge x remove u cls extraction rules = .ok (mergeBlock remove annotations b) := by
  unfold merge
  rw [hRender, hLocate]
  by_cases hNil : annotations = []
  · simp [bind, Except.bind, pure, Except.pure, hNil, mergeBlock, missing]
  · simp [bind, Except.bind, pure, Except.pure, hNil]

theorem merge_eq_ok_none {x : Extractor} {remove : Bool} {u : SourceUnit} {cls : ClassNode}
    {extraction : Extraction} {rules : AttributeRules} {annotations : List Annotation}
    (hRender : render x extraction rules = .ok annotations) (hNil : annotations ≠ [])
    (h : merge x remove u cls extraction rules = .ok none) :
    ∃ b, locate u cls = .ok b ∧ mergeBlock remove annotations b = none := by
  cases hLocate : locate u cls with
  | error e =>
    unfold merge at h
    simp [hRender, hLocate, hNil, bind, Except.bind] at h
  | ok b =>
    rw [merge_eq_ok hRender hLocate] at h
    exact ⟨b, rfl, Except.ok.inj h⟩

theorem exists_framed_base (remove : Bool) {b : DocBlock}
    (h : ∃ first middle last, Framed b first middle last) :
    ∃ first middle last, Framed (base remove b) first middle last := by
  obtain ⟨first, middle, last, hFramed⟩ := h
  cases remove with
  | false => exact ⟨first, middle, last, hFramed⟩
  | true => exact ⟨_, _, _, hFramed.clear.1⟩

def postExtraction : Extraction :=
  ⟨⟨⟨"a.php"⟩, 3⟩, OrderedMap.ofList [("uses", SortedMap.ofList [("Post", "Post")])]⟩

def usesRules : AttributeRules :=
  OrderedMap.ofList [("uses", .identity)]

end Merge

end DocWiring
