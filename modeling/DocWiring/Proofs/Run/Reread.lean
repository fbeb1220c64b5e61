import DocWiring.Proofs.Merge.Reread
import DocWiring.Proofs.Run.Repeat

/-! # Reading what a run has written

A run that takes no annotation out leaves files that are read in their encodings again, and as the report
shows them.
-/

namespace DocWiring

open Merge

namespace FileResult

variable {s : Setup} {index : ClassIndex} {file : ParsedFile} {t : Traversal} {classes : List ClassNode}

theorem exists_merge_of_mem {p : Patch}
    (h : p ∈ (patchesOf (classOutcomes s index file t classes)).map Prod.snd) :
    ∃ cls x rules, merge s.extractor s.removes file.source cls x rules = .ok (some p) := by
  obtain ⟨⟨name, p⟩, hMem, rfl⟩ := List.mem_map.mp h
  obtain ⟨cls, ho, _⟩ := mem_patchesOf_iff.mp hMem
  obtain ⟨_, rules, x, hMerging⟩ := exists_merging_of_mem ho rfl
  exact ⟨cls, x, rules, merge_of_merging hMerging⟩

/-- A file from which nothing is taken out is read in its encoding again. -/
theorem rereadable_of_keeping (hKeep : s.removes = false)
    (hRead : ∃ bytes, file.source = .ofBytes bytes) : Rereadable s index file := by
  intro r out hFile hBytes
  rw [ofFile_eq] at hFile
  obtain rfl := Except.ok.inj hFile
  obtain ⟨bytes, hSource⟩ := hRead
  have hEnds := ends_resultOf s index file
  have hMerged : ∀ p ∈ (patchesOf (classOutcomes s index file .start file.classes)).map Prod.snd,
      ∃ x cls extraction rules, merge x false (.ofBytes bytes) cls extraction rules = .ok (some p) := by
    intro p hp
    obtain ⟨cls, x, rules, hMerge⟩ := exists_merge_of_mem hp
    rw [hKeep, hSource] at hMerge
    exact ⟨_, cls, x, rules, hMerge⟩
  rw [bytes?] at hBytes
  generalize (resultOf s index file).ending = ending at hEnds hBytes
  cases hEnds with
  | encoded _ hApplied hEncoded =>
    obtain rfl := Option.some.inj hBytes
    have hEncoding := Patch.encoding_of_applyAll hApplied
    rw [hSource] at hApplied
    exact (encoding_of_keeping hMerged hApplied hEncoded).trans hEncoding
  | _ => cases hBytes

end FileResult

namespace Run

variable {s : Setup} {t : FileTree ByteArray} {paths : List Path} {c : FileChange}

/-- After a run that takes nothing out, a changed file is read as the report shows it. -/
theorem decode_of_mem_changes (hDry : s.dryRun = false) (hKeep : s.removes = false)
    (hDistinct : t.Distinct paths) (hc : c ∈ (runOn s t paths).1.report.changes) :
    ∃ old new, t.read c.path = .ok old ∧ (runOn s t paths).2.read c.path = .ok new ∧
      (Encoding.decode old).2 = c.before ∧
      Encoding.decode new = ((Encoding.decode old).1, c.after) := by
  obtain ⟨r, hr, hSettled, hChange⟩ := exists_of_mem_changes hc
  obtain ⟨hPath, old, new, hRead, hBytes, hBefore, hAfter⟩ := of_planned_change hDry hr hChange
  have hWritten := read_writeAll (fun _ => leadsToFile_of_mem_planned) (distinct_planned hDistinct) hr
  rw [hSettled, hBytes] at hWritten
  rw [hPath]
  refine ⟨old, new, hRead, hWritten, hBefore, ?_⟩
  obtain ⟨file, hFile, rfl⟩ := List.mem_map.mp hr
  obtain ⟨bytes, hOld, hSource⟩ := exists_read hFile
  obtain rfl := Except.ok.inj (hRead.symm.trans hOld)
  have hEncoding : (Encoding.decode new).1 = (Encoding.decode old).1 := by
    have hRereadable : FileResult.Rereadable s (indexOf (readyOn s t paths)) file :=
      FileResult.rereadable_of_keeping hKeep ⟨old, hSource⟩
    have hSame := hRereadable _ new (FileResult.ofFile_eq _ _ _) hBytes
    rw [hSource] at hSame
    exact hSame
  have hText := Encoding.encode_decode new
  rw [hEncoding] at hText
  exact Prod.ext hEncoding (Encoding.encode_injective hText hAfter)

end Run

end DocWiring
