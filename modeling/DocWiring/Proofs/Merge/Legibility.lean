import DocWiring.Php.File
import DocWiring.Proofs.DocBlock.Editing
import DocWiring.Proofs.DocBlock.Matching
import DocWiring.Proofs.Merge.Insertion

/-! # Annotations that are read back

What is added to a block is found in it exactly if it is legible.  An annotation that is not legible is
added once more every time, since nothing tells that it is there.
-/

namespace DocWiring

namespace DocBlock

open Annotation

/-- After any edits of a block that stands in a file, an annotation is found once it has been added,
and is not added again, exactly if it is legible. -/
theorem contains_insert_iff_legible {u : SourceUnit} {cls : ClassNode} {b : DocBlock}
    (hRead : u.IsRead) (hLocate : locate u cls = .ok b) (edits : List Edit) (a : Annotation) :
    (((b.edited edits).insert a).contains a = true ↔ a.Legible) ∧
      (((b.edited edits).insert a).insert a = (b.edited edits).insert a ↔ a.Legible) := by
  obtain ⟨_, _, _, _, hFramed⟩ := framed_of_locate hRead.areCut hLocate
  have hSame := samePlace_edited b edits
  have hEol : Line.IsEol (b.edited edits).eol := hSame.eol ▸ hFramed.isEol
  have hStar : '*' ∉ (b.edited edits).indent := hSame.indent ▸ hFramed.opens.not_mem (by decide)
  have hMet : ((b.edited edits).insert a).contains a = true ↔ a.Legible :=
    ⟨legible_of_contains, fun ha => contains_insert ha hEol hStar⟩
  exact ⟨hMet, insert_eq_self_iff.trans hMet⟩

theorem contains_insert_iff_legible_tightUnit :
    tightUnit.IsRead ∧ ∃ b, locate tightUnit tightClass = .ok b ∧
      (b.edited tightEdits).contains ⟨"\\App\\Tag", "tag"⟩ = false ∧
      ((b.edited tightEdits).insert ⟨"\\App\\Tag", "tag"⟩).contains ⟨"\\App\\Tag", "tag"⟩ = true ∧
      ((b.edited tightEdits).insert ⟨"*/ Tag", "T"⟩).contains ⟨"*/ Tag", "T"⟩ = false := by
  have hRead : tightUnit.IsRead := .inl ⟨_, rfl⟩
  refine ⟨hRead, ?_⟩
  cases hLocate : locate tightUnit tightClass with
  | error e =>
    have hFound : (locate tightUnit tightClass).isOk = true := by decide +kernel
    rw [hLocate] at hFound
    cases hFound
  | ok b =>
    have hNew : (locate tightUnit tightClass).map
        (fun b => (b.edited tightEdits).contains ⟨"\\App\\Tag", "tag"⟩) = .ok false := by decide +kernel
    rw [hLocate] at hNew
    have hSpoilt := contains_insert_iff_legible hRead hLocate tightEdits ⟨"*/ Tag", "T"⟩
    refine ⟨b, rfl, Except.ok.inj hNew, ?_, ?_⟩
    · exact (contains_insert_iff_legible hRead hLocate tightEdits ⟨"\\App\\Tag", "tag"⟩).1.mpr
        (by decide +kernel)
    · rw [← Bool.not_eq_true, hSpoilt.1]
      decide +kernel

end DocBlock

namespace Merge

open DocBlock

def dashedUnit : SourceUnit :=
  .ofText "<?php\nclass A extends Shell \x7b var $uses = ['My-Tag']; \x7d\n".toList

def dashedClass : ClassNode :=
  ⟨"A", some "Shell", 2, none, [⟨"uses", some (.list [.bare (.string "My-Tag")])⟩]⟩

/-- The symbol is read up to its dash, so the annotation that was added is not found and comes again. -/
theorem contains_insert_dashed :
    RuleTable.builtin.fault? = none ∧ Php.classes ⟨"a.php"⟩ dashedUnit = .ok [dashedClass] ∧
    ∃ extraction rules b,
      (Extractor.ofNames RuleTable.builtin.attributeNames.keys).extract ⟨"a.php"⟩ dashedClass =
        .ok extraction ∧
      RuleTable.builtin.rulesFor? "Shell" = some rules ∧
      render (.ofNames RuleTable.builtin.attributeNames.keys) extraction rules =
        .ok [⟨"My-Tag", "My-Tag"⟩] ∧
      locate dashedUnit dashedClass = .ok b ∧
      (b.insert ⟨"My-Tag", "My-Tag"⟩).contains ⟨"My-Tag", "My-Tag"⟩ = false ∧
      (b.insert ⟨"My-Tag", "My-Tag"⟩).insert ⟨"My-Tag", "My-Tag"⟩ ≠ b.insert ⟨"My-Tag", "My-Tag"⟩ := by
  refine ⟨by decide +kernel, by decide +kernel, ⟨⟨⟨"a.php"⟩, 2⟩, OrderedMap.ofList [("uses",
    SortedMap.ofList [("My-Tag", "My-Tag")])]⟩, OrderedMap.ofList [("uses", .identity)],
    ⟨["/**\n".toList, " */\n".toList], [], 1, [], ['\n']⟩, ?_, ?_, ?_, ?_, ?_, ?_⟩
  all_goals decide +kernel

end Merge

end DocWiring
