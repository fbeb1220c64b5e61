import DocWiring.Proofs.Run.Total
import DocWiring.Proofs.Source.Encoding

/-! # The report and the files

What a run that writes reports of its changes is what has happened to the files: a changed file holds
the encoding of what the report shows, and every other file is as it was.
-/

namespace DocWiring

namespace FileResult

variable {s : Setup} {index : ClassIndex} {file : ParsedFile} {change : FileChange}
  {bytes : Option ByteArray}

/-- A change of a dry run shows the file as it was read, and there is nothing to write. -/
theorem of_ending_changed
    (h : (resultOf { s with dryRun := true } index file).ending = .changed change bytes) :
    bytes = none ∧ change.path = file.path ∧ change.before = file.source.text := by
  have hEnds := ends_resultOf { s with dryRun := true } index file
  rw [h] at hEnds
  cases hEnds with
  | shown _ _ => exact ⟨rfl, rfl, rfl⟩
  | encoded hDry _ _ => cases hDry

/-- A change in a run that writes shows the file as it was read and what is to be written of it. -/
theorem of_change (hDry : s.dryRun = false) (h : (resultOf s index file).change? = some change) :
    change.path = file.path ∧ change.before = file.source.text ∧
      ∃ bytes, (resultOf s index file).bytes? = some bytes ∧
        file.source.encoding.encode change.after = .ok bytes := by
  obtain ⟨bytes, hEnding⟩ := exists_ending_of_change h
  have hEnds := ends_resultOf s index file
  rw [hEnding] at hEnds
  cases hEnds with
  | shown hShown _ =>
    rw [hDry] at hShown
    cases hShown
  | encoded _ hApplied hEncoded =>
    refine ⟨rfl, rfl, _, by rw [bytes?, hEnding], ?_⟩
    rw [← Patch.encoding_of_applyAll hApplied]
    exact SourceUnit.toBytes_eq_ok_iff.mp hEncoded

/-- A failure without a class is that of the file, which has not changed then. -/
theorem change?_of_failure {r : FileResult} {f : Failure} (h : f ∈ r.failures)
    (hFile : f.className? = none) : r.change? = none := by
  rcases List.mem_append.mp h with hClass | hEnding
  · obtain ⟨o, _, hFailure⟩ := List.mem_filterMap.mp hClass
    obtain ⟨e, _, rfl⟩ := Option.map_eq_some_iff.mp hFailure
    cases hFile
  · split at hEnding
    next hFailed => rw [change?, hFailed]
    next => cases hEnding

theorem isSome_change? {r : FileResult} (h : r.bytes?.isSome = true) : ∃ change, r.change? = some change := by
  unfold bytes? at h
  split at h
  next hEnding => exact ⟨_, by rw [change?, hEnding]⟩
  next => cases h

end FileResult

namespace Run

/-- The report of a run tells of what happened to the files of a tree. -/
structure Truthful (t after : FileTree ByteArray) (paths : List Path) (report : RunReport) : Prop where
  /-- The changes are in the order of the paths. -/
  ordered : (report.changes.map FileChange.path).Sublist paths
  /-- No file is changed twice. -/
  once : t.Distinct (report.changes.map FileChange.path)
  /-- A changed file was read as the change says, and holds the encoding of what the change shows. -/
  changed : ∀ c ∈ report.changes, ∃ old new, t.read c.path = .ok old ∧ after.read c.path = .ok new ∧
    (Encoding.decode old).2 = c.before ∧ (Encoding.decode old).1.encode c.after = .ok new
  /-- Whatever is not a changed file is as it was. -/
  kept : ∀ p, (∀ c ∈ report.changes, t.locate c.path ≠ t.locate p) → after.read p = t.read p
  /-- No file is reported to have changed and to have failed. -/
  unfailed : ∀ c ∈ report.changes, ∀ f ∈ report.failures, f.className? = none →
    t.locate f.path ≠ t.locate c.path

variable {s : Setup} {t : FileTree ByteArray} {paths : List Path} {c : FileChange}

/-- A change in the report is that of a file that could be written. -/
theorem exists_of_mem_changes (h : c ∈ (runOn s t paths).1.report.changes) :
    ∃ r ∈ planned s (readyOn s t paths), settled t r = r ∧ r.change? = some c := by
  rw [changes_runOn] at h
  obtain ⟨_, hMem, hChange⟩ := List.mem_filterMap.mp h
  obtain ⟨r, hr, rfl⟩ := List.mem_map.mp hMem
  rcases settled_cases t r with hSame | ⟨_, hFailed⟩
  · exact ⟨r, hr, hSame, hSame ▸ hChange⟩
  · rw [hFailed] at hChange
    cases hChange

theorem of_planned_change (hDry : s.dryRun = false) {r : FileResult}
    (hr : r ∈ planned s (readyOn s t paths)) (h : r.change? = some c) :
    c.path = r.path ∧ ∃ old new, t.read r.path = .ok old ∧ r.bytes? = some new ∧
      (Encoding.decode old).2 = c.before ∧ (Encoding.decode old).1.encode c.after = .ok new := by
  obtain ⟨file, hFile, rfl⟩ := List.mem_map.mp hr
  obtain ⟨hPath, hBefore, new, hBytes, hEncoded⟩ := FileResult.of_change hDry h
  obtain ⟨old, hRead, hSource⟩ := exists_read hFile
  refine ⟨hPath, old, new, hRead, hBytes, ?_, ?_⟩
  · rw [hBefore, hSource]
    exact (Line.flatten_ofText _).symm
  · rw [hSource] at hEncoded
    exact hEncoded

theorem path_of_change {r : FileResult} (hDry : s.dryRun = false)
    (hr : r ∈ settledOn s t paths) (h : r.change? = some c) : c.path = r.path := by
  obtain ⟨q, hq, rfl⟩ := List.mem_map.mp hr
  rcases settled_cases t q with hSame | ⟨_, hFailed⟩
  · rw [hSame] at h ⊢
    exact (of_planned_change hDry hq h).1
  · rw [hFailed] at h
    cases h

theorem sublist_map_changes (hDry : s.dryRun = false) :
    ((runOn s t paths).1.report.changes.map FileChange.path).Sublist paths := by
  have hPaths : (settledOn s t paths).map FileResult.path = (readyOn s t paths).map ParsedFile.path := by
    rw [settledOn, List.map_map, ← map_path_planned s]
    exact List.map_congr_left fun r _ => path_settled t r
  rw [changes_runOn]
  refine (sublist_map_filterMap fun r hr c => path_of_change hDry hr).trans ?_
  rw [hPaths]
  exact sublist_readyOn s t paths

theorem locate_ne_of_failure (hDry : s.dryRun = false) (hDistinct : t.Distinct paths)
    (hc : c ∈ (runOn s t paths).1.report.changes) {f : Failure}
    (hf : f ∈ (runOn s t paths).1.report.failures) (hFile : f.className? = none) :
    t.locate f.path ≠ t.locate c.path := by
  obtain ⟨r, hr, hSettled, hChange⟩ := exists_of_mem_changes hc
  obtain ⟨place, _, hLocate, _⟩ := leadsToFile_of_mem_planned hr
  rw [(of_planned_change hDry hr hChange).1, hLocate]
  intro hSame
  rw [failures_runOn] at hf
  rcases List.mem_append.mp hf with hf | hf
  · -- A file that was not read and parsed has no result.
    obtain ⟨parsed, hParsed, hFailure⟩ := List.mem_filterMap.mp hf
    obtain ⟨p, hp, rfl⟩ := List.mem_map.mp hParsed
    obtain ⟨file, hReady, rfl⟩ := List.mem_map.mp hr
    obtain ⟨hMem, hParse⟩ := mem_readyOn_iff.mp hReady
    obtain ⟨e, hError, rfl⟩ := parseFailure?_eq_some_iff.mp hFailure
    have hPath : p = file.path :=
      FileTree.Distinct.eq_of_locate (f := id) (by rwa [List.map_id]) hp hMem hSame hLocate
    rw [hPath, hParse] at hError
    cases hError
  · -- A file has one result only.
    obtain ⟨_, hMem, hFailure⟩ := List.mem_flatMap.mp hf
    obtain ⟨q, hq, rfl⟩ := List.mem_map.mp hMem
    have hNone := FileResult.change?_of_failure hFailure hFile
    rw [FileResult.path_of_mem_failures hFailure, path_settled] at hSame
    rw [(distinct_planned hDistinct).eq_of_locate hq hr hSame hLocate, hSettled, hChange] at hNone
    cases hNone

/-- A run that writes reports what has happened to the files. -/
theorem truthful_runOn (hDry : s.dryRun = false) (hDistinct : t.Distinct paths) :
    Truthful t (runOn s t paths).2 paths (runOn s t paths).1.report := by
  have hLeads : ∀ r ∈ planned s (readyOn s t paths), t.LeadsToFile r.path :=
    fun _ => leadsToFile_of_mem_planned
  have hApart := distinct_planned (s := s) hDistinct
  refine ⟨sublist_map_changes hDry, hDistinct.sublist (sublist_map_changes hDry), ?_, ?_,
    fun c hc f hf => locate_ne_of_failure hDry hDistinct hc hf⟩
  · intro c hc
    obtain ⟨r, hr, hSettled, hChange⟩ := exists_of_mem_changes hc
    obtain ⟨hPath, old, new, hRead, hBytes, hBefore, hAfter⟩ := of_planned_change hDry hr hChange
    have hWritten := read_writeAll hLeads hApart hr
    rw [hSettled, hBytes] at hWritten
    rw [hPath]
    exact ⟨old, new, hRead, hWritten, hBefore, hAfter⟩
  · intro p hOther
    refine FileTree.read_congr ((sameShape_writeAll hLeads).locate_eq p) fun place hPlace => ?_
    refine find?_writeAll hLeads fun r hr hSome hLocate => ?_
    -- A file with bytes to be written is reported to have changed.
    obtain ⟨c, hChange⟩ := FileResult.isSome_change? hSome
    have hMem : settled t r ∈ settledOn s t paths := List.mem_map_of_mem hr
    have hc : c ∈ (runOn s t paths).1.report.changes := by
      rw [changes_runOn]
      exact List.mem_filterMap.mpr ⟨_, hMem, hChange⟩
    apply hOther c hc
    rw [path_of_change hDry hMem hChange, path_settled, hLocate, hPlace]

theorem exists_truthful (hDry : s.dryRun = false) (hDistinct : t.Distinct paths) :
    ∃ r after, onTree s t paths = .ok (r, after) ∧ Truthful t after paths r.report :=
  ⟨_, _, onTree_eq s t paths, truthful_runOn hDry hDistinct⟩

/-- A shell in every file. -/
def shellSetup : Setup :=
  ⟨fun _ _ => .ok [⟨"A", some "Shell", 2, none, [⟨"uses", some (.list [.bare (.string "Post")])⟩]⟩],
    .standard, false, false⟩

def shellTree : FileTree ByteArray :=
  ⟨⟨[(["a.php"], "<?php\nclass A {}\n".toByteArray), (["b.php"], "<?php\n".toByteArray)], by decide⟩,
    [[]], []⟩

def shellPaths : List Path :=
  [⟨"a.php"⟩, ⟨"b.php"⟩, ⟨"c.php"⟩]

theorem exists_truthful_shellTree :
    ∃ r after, onTree shellSetup shellTree shellPaths = .ok (r, after) ∧
      Truthful shellTree after shellPaths r.report ∧
      r.report.changes.map FileChange.path = [⟨"a.php"⟩] ∧
      r.report.failures.map Failure.path = [⟨"c.php"⟩] := by
  have hDistinct : shellTree.Distinct shellPaths := by decide +kernel
  have hReport : (onTree shellSetup shellTree shellPaths).map (fun r =>
      (r.1.report.changes.map FileChange.path, r.1.report.failures.map Failure.path)) =
        .ok ([⟨"a.php"⟩], [⟨"c.php"⟩]) := by decide +kernel
  obtain ⟨r, after, hRun, hTrue⟩ := exists_truthful (rfl : shellSetup.dryRun = false) hDistinct
  rw [hRun] at hReport
  obtain ⟨hChanges, hFailures⟩ := Prod.mk.inj (Except.ok.inj hReport)
  exact ⟨r, after, hRun, hTrue, hChanges, hFailures⟩

end Run

end DocWiring
