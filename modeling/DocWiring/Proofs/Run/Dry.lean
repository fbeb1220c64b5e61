import DocWiring.Php.File
import DocWiring.Proofs.Run.Truth
import Mathlib.Data.List.Flatten

/-! # Dry runs

A dry run writes nothing, and it shows what a run that writes does, with one exception: it does not find
out whether a change can be encoded.  A run that writes has all the changes of the dry run but those that
the encoding of their file cannot hold, and only these make its report another one.
-/

namespace DocWiring

attribute [ext] RunReport

open Run

/-- The ending of a file once a change of it is encoded. -/
def Ending.encoded (encoding : Encoding) : Ending → Ending
  | .changed change _ =>
    match encoding.encode change.after with
    | .ok bytes => .changed change (some bytes)
    | .error c => .failed (.io (.unencodable c))
  | ending => ending

/-- The encoding that a file of the tree is read in can hold the text that a change shows. -/
def FileChange.isEncodable (t : FileTree ByteArray) (c : FileChange) : Bool :=
  match t.read c.path with
  | .ok bytes => ((Encoding.decode bytes).1.encode c.after).isOk
  | .error _ => false

namespace FileResult

def encoded (encoding : Encoding) (r : FileResult) : FileResult :=
  { r with ending := r.ending.encoded encoding }

variable {s : Setup} {index : ClassIndex} {file : ParsedFile}

/-- Classes are treated alike whether or not anything is written. -/
theorem classOutcomes_dryRun (dry : Bool) (t : Traversal) (classes : List ClassNode) :
    classOutcomes { s with dryRun := dry } index file t classes = classOutcomes s index file t classes := by
  induction classes generalizing t with
  | nil => rfl
  | cons cls rest ih =>
    have hStep : classStep { s with dryRun := dry } index file t cls = classStep s index file t cls := rfl
    rw [classOutcomes_cons, classOutcomes_cons, hStep, ih]

theorem endingOf_eq_encoded (s : Setup) (file : ParsedFile) (patches : List (String × Patch)) :
    endingOf { s with dryRun := false } file patches =
      (endingOf { s with dryRun := true } file patches).encoded file.source.encoding := by
  unfold endingOf
  cases hApplied : Patch.applyAll file.source (patches.map Prod.snd) with
  | error e => rfl
  | ok updated =>
    dsimp only
    by_cases hSame : updated = file.source
    · rw [if_pos hSame, if_pos hSame]
      rfl
    · have hEncoding := Patch.encoding_of_applyAll hApplied
      rw [if_neg hSame, if_neg hSame, SourceUnit.toBytes, hEncoding]
      simp only [Bool.false_eq_true, if_false, if_true, Ending.encoded]
      cases file.source.encoding.encode updated.text <;> rfl

/-- A run that writes does what a dry run shows, but that it encodes the changes. -/
theorem resultOf_eq_encoded (s : Setup) (index : ClassIndex) (file : ParsedFile) :
    resultOf { s with dryRun := false } index file =
      (resultOf { s with dryRun := true } index file).encoded file.source.encoding := by
  simp only [encoded, resultOf, classOutcomes_dryRun, endingOf_eq_encoded]
  split <;> rfl

theorem bytes?_of_dry : (resultOf { s with dryRun := true } index file).bytes? = none := by
  cases hEnding : (resultOf { s with dryRun := true } index file).ending with
  | kept => rw [bytes?, hEnding]
  | failed e => rw [bytes?, hEnding]
  | changed change bytes =>
    rw [bytes?, hEnding]
    exact (of_ending_changed hEnding).1

section Encoded

variable (encoding : Encoding) (r : FileResult)

theorem change?_encoded :
    (r.encoded encoding).change? = r.change?.filter fun c => (encoding.encode c.after).isOk := by
  cases hEnding : r.ending with
  | kept => simp [change?, encoded, hEnding, Ending.encoded]
  | failed e => simp [change?, encoded, hEnding, Ending.encoded]
  | changed c bytes =>
    have hShown : r.change? = some c := by rw [change?, hEnding]
    rw [hShown, Option.filter_some]
    cases hEncoded : encoding.encode c.after <;>
      simp [change?, encoded, hEnding, Ending.encoded, hEncoded, Except.isOk, Except.toBool]

theorem sublist_failures_encoded : r.failures.Sublist (r.encoded encoding).failures := by
  refine List.Sublist.append (List.Sublist.refl _) ?_
  cases hEnding : r.ending with
  | kept => exact List.nil_sublist _
  | failed e =>
    simp only [encoded, hEnding, Ending.encoded]
    exact List.Sublist.refl _
  | changed c bytes => exact List.nil_sublist _

/-- A file fails only if its change cannot be encoded. -/
theorem failures_encoded (h : ∀ c, r.change? = some c → (encoding.encode c.after).isOk = true) :
    (r.encoded encoding).failures = r.failures := by
  unfold failures encoded
  congr 1
  cases hEnding : r.ending with
  | kept => rfl
  | failed e => rfl
  | changed c bytes =>
    have hOk := h c (by rw [change?, hEnding])
    cases hEncoded : encoding.encode c.after with
    | error e =>
      rw [hEncoded] at hOk
      cases hOk
    | ok out => simp only [Ending.encoded, hEncoded]

theorem failures_encoded_ne_nil {c : FileChange} (h : r.change? = some c)
    (hEncoded : (encoding.encode c.after).isOk = false) : (r.encoded encoding).failures ≠ [] := by
  obtain ⟨bytes, hEnding⟩ := exists_ending_of_change h
  cases hError : encoding.encode c.after with
  | ok out =>
    rw [hError] at hEncoded
    cases hEncoded
  | error e => simp [failures, encoded, hEnding, Ending.encoded, hError]

end Encoded

end FileResult

namespace Run

variable {s : Setup} {t : FileTree ByteArray} {paths : List Path} {file : ParsedFile} {c : FileChange}

theorem isEncodable_eq {index : ClassIndex} (hFile : file ∈ readyOn s t paths)
    (h : (FileResult.resultOf { s with dryRun := true } index file).change? = some c) :
    c.isEncodable t = (file.source.encoding.encode c.after).isOk := by
  obtain ⟨bytes, hRead, hSource⟩ := exists_read hFile
  obtain ⟨_, hEnding⟩ := FileResult.exists_ending_of_change h
  rw [FileChange.isEncodable, (FileResult.of_ending_changed hEnding).2.1, hRead, hSource]
  rfl

theorem change?_real {index : ClassIndex} (hFile : file ∈ readyOn s t paths) :
    (FileResult.resultOf { s with dryRun := false } index file).change? =
      (FileResult.resultOf { s with dryRun := true } index file).change?.filter
        (FileChange.isEncodable t) := by
  rw [FileResult.resultOf_eq_encoded, FileResult.change?_encoded]
  cases hShown : (FileResult.resultOf { s with dryRun := true } index file).change? with
  | none => rfl
  | some c => rw [Option.filter_some, Option.filter_some, isEncodable_eq hFile hShown]

theorem bytes?_planned_dry :
    ∀ r ∈ planned { s with dryRun := true } (readyOn s t paths), r.bytes? = none := by
  intro r hr
  obtain ⟨file, _, rfl⟩ := List.mem_map.mp hr
  exact FileResult.bytes?_of_dry

theorem settledOn_dry (s : Setup) (t : FileTree ByteArray) (paths : List Path) :
    settledOn { s with dryRun := true } t paths =
      planned { s with dryRun := true } (readyOn s t paths) :=
  settledOn_of_nothing bytes?_planned_dry

theorem settledOn_real (hWrites : t.Writable paths) :
    settledOn { s with dryRun := false } t paths =
      planned { s with dryRun := false } (readyOn s t paths) := by
  refine (List.map_congr_left fun r hr => ?_).trans (List.map_id _)
  obtain ⟨file, hFile, rfl⟩ := List.mem_map.mp hr
  obtain ⟨bytes, hRead, _⟩ := exists_read hFile
  have hOk := hWrites file.path (mem_readyOn_iff.mp hFile).1 (by rw [hRead]; rfl)
  cases hWritable : t.writable file.path with
  | error cause =>
    rw [hWritable] at hOk
    cases hOk
  | ok place => exact settled_of_writable hWritable

theorem runOn_dry (s : Setup) (t : FileTree ByteArray) (paths : List Path) :
    (runOn { s with dryRun := true } t paths).2 = t :=
  runOn_of_nothing bytes?_planned_dry

/-- Of the changes that a dry run shows, those that can be encoded are made. -/
theorem changes_real (hWrites : t.Writable paths) :
    (runOn { s with dryRun := false } t paths).1.report.changes =
      (runOn { s with dryRun := true } t paths).1.report.changes.filter (FileChange.isEncodable t) := by
  rw [changes_runOn, changes_runOn, settledOn_dry, settledOn_real hWrites, planned, planned,
    List.filterMap_map, List.filterMap_map, List.filter_filterMap]
  exact List.filterMap_congr fun file hFile => change?_real hFile

theorem sublist_failures_real (hWrites : t.Writable paths) :
    (runOn { s with dryRun := true } t paths).1.report.failures.Sublist
      (runOn { s with dryRun := false } t paths).1.report.failures := by
  rw [failures_runOn, failures_runOn, settledOn_dry, settledOn_real hWrites, planned, planned,
    List.flatMap_map, List.flatMap_map]
  refine List.Sublist.append (List.Sublist.refl _) (.flatMap_right _ fun file _ => ?_)
  rw [FileResult.resultOf_eq_encoded]
  exact FileResult.sublist_failures_encoded _ _

theorem mem_changes_dry_iff : c ∈ (runOn { s with dryRun := true } t paths).1.report.changes ↔
    ∃ file ∈ readyOn s t paths, (FileResult.resultOf { s with dryRun := true }
      (indexOf (readyOn s t paths)) file).change? = some c := by
  rw [changes_runOn, settledOn_dry, planned, List.filterMap_map, List.mem_filterMap]
  rfl

theorem failures_real (hWrites : t.Writable paths)
    (h : ∀ c ∈ (runOn { s with dryRun := true } t paths).1.report.changes, c.isEncodable t = true) :
    (runOn { s with dryRun := false } t paths).1.report.failures =
      (runOn { s with dryRun := true } t paths).1.report.failures := by
  rw [failures_runOn, failures_runOn, settledOn_dry, settledOn_real hWrites, planned, planned,
    List.flatMap_map, List.flatMap_map]
  congr 1
  refine List.flatMap_congr fun file hFile => ?_
  rw [FileResult.resultOf_eq_encoded]
  apply FileResult.failures_encoded
  intro c hChange
  rw [← isEncodable_eq hFile hChange]
  exact h c (mem_changes_dry_iff.mpr ⟨file, hFile, hChange⟩)

theorem failures_real_ne_nil (hWrites : t.Writable paths)
    (hc : c ∈ (runOn { s with dryRun := true } t paths).1.report.changes)
    (h : c.isEncodable t = false) :
    (runOn { s with dryRun := false } t paths).1.report.failures ≠ [] := by
  obtain ⟨file, hFile, hChange⟩ := mem_changes_dry_iff.mp hc
  rw [isEncodable_eq hFile hChange] at h
  have hFailed := FileResult.failures_encoded_ne_nil _ _ hChange h
  rw [← FileResult.resultOf_eq_encoded] at hFailed
  rw [failures_runOn, settledOn_real hWrites]
  intro hNil
  have hNone := List.flatMap_eq_nil_iff.mp (List.append_eq_nil_iff.mp hNil).2
  exact hFailed (hNone _ (List.mem_map_of_mem hFile))

/-- A dry run leaves the files alone and shows what a run that writes does, as far as the changes can be
encoded: the report of the run that writes is the same exactly if all of them can be, and otherwise the
run fails. -/
theorem onTree_dryRun (s : Setup) (hWrites : t.Writable paths) :
    ∃ shown made after, onTree { s with dryRun := true } t paths = .ok (shown, t) ∧
      onTree { s with dryRun := false } t paths = .ok (made, after) ∧
      made.report.classesIndexed = shown.report.classesIndexed ∧
      made.report.changes = shown.report.changes.filter (FileChange.isEncodable t) ∧
      shown.report.failures.Sublist made.report.failures ∧
      (made.report = shown.report ↔ ∀ c ∈ shown.report.changes, c.isEncodable t = true) ∧
      ((∃ c ∈ shown.report.changes, c.isEncodable t = false) → made.report.outcome = .failed) := by
  refine ⟨(runOn { s with dryRun := true } t paths).1, (runOn { s with dryRun := false } t paths).1,
    (runOn { s with dryRun := false } t paths).2, ?_, onTree_eq _ t paths, rfl, changes_real hWrites,
    sublist_failures_real hWrites, ⟨fun hSame => ?_, fun hAll => ?_⟩, ?_⟩
  · rw [onTree_eq]
    exact congrArg Except.ok (Prod.ext rfl (runOn_dry s t paths))
  · have hChanges := changes_real (s := s) hWrites
    rw [hSame] at hChanges
    exact List.filter_eq_self.mp hChanges.symm
  · refine RunReport.ext rfl rfl ?_ (failures_real hWrites hAll)
    rw [changes_real hWrites, List.filter_eq_self]
    exact hAll
  · rintro ⟨c, hc, hNot⟩
    have hFailed := failures_real_ne_nil hWrites hc hNot
    rw [RunReport.outcome, if_pos (by simpa using hFailed)]

theorem onTree_dryRun_shellTree :
    ∃ shown made after, onTree { shellSetup with dryRun := true } shellTree shellPaths =
        .ok (shown, shellTree) ∧
      onTree { shellSetup with dryRun := false } shellTree shellPaths = .ok (made, after) ∧
      shown.report.changes.length = 1 ∧ made.report = shown.report := by
  have hWrites : shellTree.Writable shellPaths := by decide +kernel
  have hShell : (onTree { shellSetup with dryRun := true } shellTree shellPaths).map (fun r =>
      (r.1.report.changes.length, r.1.report.changes.all (FileChange.isEncodable shellTree))) =
        .ok (1, true) := by decide +kernel
  obtain ⟨shown, made, after, hShown, hMade, _, _, _, hSame, _⟩ := onTree_dryRun shellSetup hWrites
  rw [hShown] at hShell
  obtain ⟨hOne, hAll⟩ := Prod.mk.inj (Except.ok.inj hShell)
  exact ⟨shown, made, after, hShown, hMade, hOne, hSame.mpr (List.all_eq_true.mp hAll)⟩

/-- A file in ISO-8859-1 whose class is to be wired to a type with a character from elsewhere. -/
def snowTree : FileTree ByteArray :=
  ⟨⟨[(["a.php"], "<?php\n// ".toByteArray ++ ⟨#[0xe9]⟩ ++
      "\nclass A extends Shell \x7b var $uses  = ['Post']; \x7d\n".toByteArray)], by simp⟩, [[]], []⟩

def snowSetup : Setup :=
  ⟨Php.classes, { Config.standard with transforms := ⟨OrderedMap.ofList
    [("Shell", OrderedMap.ofList [("uses", .appendSuffix "☃")])]⟩ }, false, false⟩

/-- The dry run shows a change, and the run that writes fails. -/
theorem onTree_snowTree :
    (onTree { snowSetup with dryRun := true } snowTree [⟨"a.php"⟩]).map (fun r =>
        (r.1.report.outcome, r.1.report.changes.map FileChange.path, r.1.report.failures)) =
        .ok (.changed, [⟨"a.php"⟩], []) ∧
      (onTree snowSetup snowTree [⟨"a.php"⟩]).map (fun r =>
        (r.1.report.outcome, r.1.report.changes.map FileChange.path, r.1.report.failures)) =
        .ok (.failed, [], [⟨⟨"a.php"⟩, none, .io (.unencodable '☃')⟩]) := by
  decide +kernel

end Run

end DocWiring
