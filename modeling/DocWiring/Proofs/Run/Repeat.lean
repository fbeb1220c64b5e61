import DocWiring.Proofs.Run.Again
import DocWiring.Proofs.Run.Truth

/-! # Running twice

A run after a run without failures finds nothing to be done, as long as the annotations are words, the
classes that were patched stand alone, and the new bytes are read in the encoding they were written in.
-/

namespace DocWiring

open Merge Php

namespace FileResult

variable {s : Setup} {index index' : ClassIndex} {file file' : ParsedFile} {parser : SyntaxParser}
  {r : FileResult}

/-- What is written of a file is read in the encoding in which it was written. -/
def Rereadable (s : Setup) (index : ClassIndex) (file : ParsedFile) : Prop :=
  ∀ r bytes, ofFile s index file = .ok r → r.bytes? = some bytes →
    (SourceUnit.ofBytes bytes).encoding = file.source.encoding

theorem rereadable_of_utf8 (hDry : s.dryRun = false) (h : file.source.encoding = .utf8) :
    Rereadable s index file := by
  intro r bytes hFile hBytes
  rw [ofFile_eq] at hFile
  obtain rfl := Except.ok.inj hFile
  obtain ⟨change, hChange⟩ := isSome_change? (by rw [hBytes]; rfl)
  obtain ⟨_, _, out, hOut, hEncoded⟩ := of_change hDry hChange
  obtain rfl : out = bytes := Option.some.inj (hOut.symm.trans hBytes)
  rw [h] at hEncoded ⊢
  rw [← Except.ok.inj hEncoded, SourceUnit.ofBytes_toByteArray]
  rfl

/-- What becomes of a file without failures in a run that writes. -/
theorem exists_updated (hDry : s.dryRun = false) (h : ofFile s index file = .ok r)
    (hFailures : r.failures = []) : ∃ updated,
      Patch.applyAll file.source
        ((patchesOf (classOutcomes s index file .start file.classes)).map Prod.snd) = .ok updated ∧
      r.path = file.path ∧ (∀ o ∈ classOutcomes s index file .start file.classes, o.2.error? = none) ∧
      (r.bytes? = none → updated = file.source) ∧
      ∀ bytes, r.bytes? = some bytes → updated.toBytes = .ok bytes := by
  rw [ofFile_eq] at h
  obtain rfl := Except.ok.inj h
  obtain ⟨hClasses, hEnding⟩ := List.append_eq_nil_iff.mp hFailures
  have hErrors : ∀ o ∈ classOutcomes s index file .start file.classes, o.2.error? = none := by
    intro o ho
    have hNone := List.filterMap_eq_nil_iff.mp hClasses o ho
    exact Option.map_eq_none_iff.mp hNone
  have hEnds := ends_resultOf s index file
  rw [bytes?]
  generalize (resultOf s index file).ending = ending at hEnds hEnding
  cases hEnds with
  | rejected _ => cases hEnding
  | same hApplied =>
    refine ⟨_, hApplied, rfl, hErrors, fun _ => rfl, ?_⟩
    intro out hOut
    cases hOut
  | shown hShown _ =>
    rw [hDry] at hShown
    cases hShown
  | unencoded _ _ _ => cases hEnding
  | encoded _ hApplied hEncoded =>
    refine ⟨_, hApplied, rfl, hErrors, ?_, ?_⟩
    · intro hNone
      cases hNone
    · intro out hOut
      rw [hEncoded, Option.some.inj hOut]

/-- A file that has been read, and what it is after a run. -/
structure Redone (s : Setup) (index : ClassIndex) (file file' : ParsedFile) : Prop where
  matched : Run.Matched file file'
  settled : List.Forall₂ (Settled s index file file')
    (classOutcomes s index file .start file.classes) file'.classes

/-- Nothing is done for a file that has been revised. -/
theorem Redone.idle (h : Redone s index file file') (hAncestors : index'.topAncestor = index.topAncestor)
    (hOwners : ∀ c ∈ file.classes.zip file'.classes,
      index'.isOwner c.2.name file'.path c.2.startLine = index.isOwner c.1.name file.path c.1.startLine) :
    (resultOf s index' file').Idle :=
  idle_resultOf (classOutcomes_again ⟨h.matched.path, hAncestors, hOwners, h.matched.aligned⟩
    (List.Subset.refl _) (fun _ _ => rfl) h.settled)

theorem Rewritten.aligned {updated : SourceUnit} {lines : Nat → Nat → Prop} {classes : List ClassNode}
    (h : Rewritten parser s index file updated lines classes) :
    ∀ c ∈ file.classes.zip classes, ∀ d ∈ file.classes.zip classes,
      (c.2.startLine = d.2.startLine ↔ c.1.startLine = d.1.startLine) := by
  have hLines : List.Forall₂ (fun c c' => lines c.startLine c'.startLine) file.classes classes :=
    h.forall₂_classes Revised.line
  intro c hc d hd
  exact (Relator.rel_eq h.biUnique ((List.forall₂_iff_zip.mp hLines).2 hc)
    ((List.forall₂_iff_zip.mp hLines).2 hd)).symm

theorem Rewritten.redone {updated : SourceUnit} {lines : Nat → Nat → Prop} {classes : List ClassNode}
    (h : Rewritten parser s index file updated lines classes) (hCut : Line.AreCut file.source.lines)
    (hWorded : Worded s index file)
    (hErrors : ∀ o ∈ classOutcomes s index file .start file.classes, o.2.error? = none) :
    Redone s index file ⟨file.path, updated, classes⟩ := by
  refine ⟨⟨rfl, h.alike, h.aligned⟩, ?_⟩
  refine List.forall₂_iff_zip.mpr ⟨h.revised.length_eq, fun {o c'} hMem => ?_⟩
  have ho := (List.of_mem_zip hMem).1
  exact settled_of_revised hCut hWorded ho (hErrors o ho) ((List.forall₂_iff_zip.mp h.revised).2 hMem)

/-- After a run without failures, a file is read as what it has been rewritten to. -/
theorem exists_redone {p : Path} {bytes : ByteArray} (hProvider : s.provider = parser.classes)
    (hParser : parser.Lawful) (hDry : s.dryRun = false) (hParse : Run.parse s (p, .ok bytes) = .ok file)
    (hWorded : Worded s index file) (hAlone : Alone parser s index file)
    (hRereadable : Rereadable s index file) (hFile : ofFile s index file = .ok r)
    (hFailures : r.failures = []) : ∃ file', Redone s index file file' ∧
      Run.parse s (p, .ok (r.bytes?.getD bytes)) = .ok file' := by
  obtain ⟨updated, hApplied, _, hErrors, hKept, hWritten⟩ := exists_updated hDry hFile hFailures
  have hCut : Line.AreCut (SourceUnit.ofBytes bytes).lines := Line.areCut_ofText _
  have hSame := hParse
  unfold Run.parse at hParse
  dsimp only at hParse
  split at hParse
  next hEmpty =>
    -- A file without lines has no classes, and nothing is written.
    obtain rfl := Except.ok.inj hParse
    have hUpdated : updated = SourceUnit.ofBytes bytes := (Except.ok.inj hApplied).symm
    have hBytes : r.bytes? = none := by
      rw [ofFile_eq] at hFile
      obtain rfl := Except.ok.inj hFile
      rfl
    refine ⟨_, ⟨⟨rfl, .nil, by simp⟩, .nil⟩, ?_⟩
    rw [hBytes]
    exact hSame
  next hSome =>
    rw [hProvider] at hParse
    obtain ⟨classes, hClasses, rfl⟩ := Except.exists_of_map_eq_ok hParse
    obtain ⟨lines, classes', hRewritten⟩ := exists_rewritten hParser hCut hClasses hWorded hAlone hApplied
    have hAgain : SourceUnit.ofBytes (r.bytes?.getD bytes) = updated := by
      cases hBytes : r.bytes? with
      | none => exact (hKept hBytes).symm
      | some out =>
        have hEncoding := (hRereadable r out hFile hBytes).trans hRewritten.encoding.symm
        exact SourceUnit.ofBytes_of_toBytes hRewritten.areCut (hWritten out hBytes) hEncoding
    refine ⟨_, hRewritten.redone hCut hWorded hErrors, ?_⟩
    have hNil : updated.lines ≠ [] := hRewritten.ne_nil (by simpa using hSome)
    unfold Run.parse
    dsimp only
    rw [hAgain, if_neg (by simpa using hNil), hProvider, hRewritten.declared]
    rfl

end FileResult

namespace Run

variable {s : Setup} {index : ClassIndex} {t t' : FileTree ByteArray} {paths : List Path} {r : Run}
  {files files' : List ParsedFile}

theorem exists_forall₂ {α β : Type} {P : α → β → Prop} {l : List α} (h : ∀ a ∈ l, ∃ b, P a b) :
    ∃ m, List.Forall₂ P l m := by
  induction l with
  | nil => exact ⟨[], .nil⟩
  | cons a l ih =>
    obtain ⟨⟨b, hb⟩, hRest⟩ := List.forall_mem_cons.mp h
    obtain ⟨m, hm⟩ := ih hRest
    exact ⟨b :: m, .cons hb hm⟩

theorem exists_parsed_of_failures (h : (parsedOn s t paths).filterMap parseFailure? = []) :
    ∀ p ∈ paths, ∃ file, parse s (p, t.read p) = .ok file := by
  intro p hp
  have hNone := List.filterMap_eq_nil_iff.mp h (p, parse s (p, t.read p)) (List.mem_map_of_mem hp)
  cases hParse : parse s (p, t.read p) with
  | error e => simp [parseFailure?, hParse] at hNone
  | ok file => exact ⟨file, rfl⟩

theorem forall₂_readyOn (h : ∀ p ∈ paths, ∃ file, parse s (p, t.read p) = .ok file) :
    List.Forall₂ (fun p file => parse s (p, t.read p) = .ok file) paths (readyOn s t paths) := by
  rw [readyOn_eq_filterMap]
  induction paths with
  | nil => exact .nil
  | cons p paths ih =>
    obtain ⟨⟨file, hParse⟩, hRest⟩ := List.forall_mem_cons.mp h
    rw [List.filterMap_cons_some (by rw [hParse]; rfl)]
    exact .cons hParse (ih hRest)

theorem map_path_of_forall₂
    (h : List.Forall₂ (fun p file => parse s (p, t.read p) = .ok file) paths files) :
    files.map ParsedFile.path = paths := by
  induction h with
  | nil => rfl
  | cons hParse _ ih => rw [List.map_cons, (of_parse hParse).1, ih]

theorem readyOn_of_forall₂
    (h : List.Forall₂ (fun p file => parse s (p, t.read p) = .ok file) paths files) :
    readyOn s t paths = files := by
  rw [readyOn_eq_filterMap]
  induction h with
  | nil => rfl
  | cons hParse _ ih => rw [List.filterMap_cons_some (by rw [hParse]; rfl), ih]

theorem onTree_of_idle
    (hFiles : List.Forall₂ (fun p file => parse s (p, t.read p) = .ok file) paths files)
    (h : ∀ file ∈ files, (FileResult.resultOf s (indexOf files) file).Idle) :
    ∃ r, onTree s t paths = .ok (r, t) ∧ r.report.changes = [] ∧ r.report.failures = [] ∧
      r.report.outcome = .clean := by
  have hPlanned : ∀ q ∈ planned s (readyOn s t paths), q.Idle := by
    rw [readyOn_of_forall₂ hFiles]
    intro q hq
    obtain ⟨file, hFile, rfl⟩ := List.mem_map.mp hq
    exact h file hFile
  have hUnwritten : ∀ q ∈ planned s (readyOn s t paths), q.bytes? = none := by
    intro q hq
    rw [FileResult.bytes?, (hPlanned q hq).kept]
  have hParsed : (parsedOn s t paths).filterMap parseFailure? = [] := by
    rw [parsedOn, List.filterMap_map, List.filterMap_eq_nil_iff]
    intro p hp
    obtain ⟨file, hMem⟩ := exists_of_mem_left hFiles hp
    simp [parseFailure?, List.forall₂_zip hFiles hMem]
  have hChanges : (runOn s t paths).1.report.changes = [] := by
    rw [changes_runOn, settledOn_of_nothing hUnwritten, List.filterMap_eq_nil_iff]
    intro q hq
    rw [FileResult.change?, (hPlanned q hq).kept]
  have hFailures : (runOn s t paths).1.report.failures = [] := by
    rw [failures_runOn, settledOn_of_nothing hUnwritten]
    exact List.append_eq_nil_iff.mpr
      ⟨hParsed, List.flatMap_eq_nil_iff.mpr fun q hq => (hPlanned q hq).unfailed⟩
  refine ⟨(runOn s t paths).1, ?_, hChanges, hFailures, ?_⟩
  · rw [onTree_eq]
    exact congrArg Except.ok (Prod.ext rfl (runOn_of_nothing hUnwritten))
  · rw [RunReport.outcome, hChanges, hFailures]
    rfl

theorem same_eq_false {p q : Path} {bytes bytes' : ByteArray} (hp : t.read p = .ok bytes)
    (hq : t.read q = .ok bytes') (h : ∀ place, t.locate p = .ok place → t.locate q ≠ .ok place) :
    p.same q = false := by
  obtain ⟨place, hPlace, _⟩ := FileTree.read_eq_ok_iff.mp hp
  obtain ⟨other, hOther, _⟩ := FileTree.read_eq_ok_iff.mp hq
  rw [← Bool.not_eq_true]
  intro hSame
  apply h place hPlace
  rw [hOther, FileTree.locate_eq_of_same hSame hPlace hOther]

/-- A second run over files that are revised finds nothing to be done. -/
theorem onTree_of_redone (hPaths : paths = files.map ParsedFile.path)
    (hDistinct : files.Pairwise fun f g => f.path.same g.path = false)
    (hRedone : List.Forall₂ (fun file file' => FileResult.Redone s (indexOf files) file file' ∧
      parse s (file.path, t.read file.path) = .ok file') files files') :
    ∃ r, onTree s t paths = .ok (r, t) ∧ r.report.changes = [] ∧ r.report.failures = [] ∧
      r.report.outcome = .clean := by
  have hMatched : List.Forall₂ Matched files files' :=
    hRedone.imp fun _ _ h => h.1.matched
  have hParsed : List.Forall₂ (fun p file => parse s (p, t.read p) = .ok file) paths files' := by
    rw [hPaths]
    exact List.forall₂_map_left_iff.mpr (hRedone.imp fun _ _ h => h.2)
  apply onTree_of_idle hParsed
  intro file' hfile'
  obtain ⟨file, hMem⟩ := exists_of_mem_right hRedone hfile'
  refine (List.forall₂_zip hRedone hMem).1.idle ?_ ?_
  · exact (sameParents_fillIndex hMatched).topAncestor_eq
  · intro c hc
    exact isOwner_fillIndex hMatched hDistinct hMem hc

theorem settled_eq_of_failures {q : FileResult} (h : (settled t q).failures = []) :
    settled t q = q := by
  rcases settled_cases t q with hSame | ⟨cause, hFailed⟩
  · exact hSame
  · rw [hFailed] at h
    exact absurd h (failures_unwritten q cause)

/-- In the tree after the run, a file that did not fail is its revision. -/
theorem exists_redone_after {parser : SyntaxParser} (hProvider : s.provider = parser.classes)
    (hParser : parser.Lawful) (hDry : s.dryRun = false) (hDistinct : t.Distinct paths) {file : ParsedFile}
    (hFile : file ∈ readyOn s t paths)
    (hFailures : (settled t (FileResult.resultOf s (indexOf (readyOn s t paths)) file)).failures = [])
    (hWorded : FileResult.Worded s (indexOf (readyOn s t paths)) file)
    (hAlone : FileResult.Alone parser s (indexOf (readyOn s t paths)) file)
    (hRereadable : FileResult.Rereadable s (indexOf (readyOn s t paths)) file) :
    ∃ file', FileResult.Redone s (indexOf (readyOn s t paths)) file file' ∧
      parse s (file.path, (runOn s t paths).2.read file.path) = .ok file' := by
  have hSame := settled_eq_of_failures hFailures
  have hAfter := read_writeAll (fun _ => leadsToFile_of_mem_planned) (distinct_planned hDistinct)
    (List.mem_map_of_mem hFile)
  rw [hSame] at hFailures hAfter
  obtain ⟨bytes, hBytes, _⟩ := exists_read hFile
  have hParse := (mem_readyOn_iff.mp hFile).2
  rw [hBytes] at hParse
  obtain ⟨file', hRedone, hAgain⟩ := FileResult.exists_redone hProvider hParser hDry hParse hWorded hAlone
    hRereadable (FileResult.ofFile_eq _ _ _) hFailures
  refine ⟨file', hRedone, ?_⟩
  have hNew : (runOn s t paths).2.read file.path =
      .ok ((FileResult.resultOf s (indexOf (readyOn s t paths)) file).bytes?.getD bytes) := by
    refine hAfter.trans ?_
    cases (FileResult.resultOf s (indexOf (readyOn s t paths)) file).bytes? with
    | none => exact hBytes
    | some out => rfl
  rw [hNew]
  exact hAgain

/-- A run after a run without failures finds nothing to be done. -/
theorem onTree_again {parser : SyntaxParser} (hProvider : s.provider = parser.classes)
    (hParser : parser.Lawful) (hDry : s.dryRun = false) (hDistinct : t.Distinct paths)
    (hRun : onTree s t paths = .ok (r, t')) (hFailures : r.report.failures = [])
    (hWorded : ∀ file ∈ ready r.parsed, FileResult.Worded s r.index file)
    (hAlone : ∀ file ∈ ready r.parsed, FileResult.Alone parser s r.index file)
    (hRereadable : ∀ file ∈ ready r.parsed, FileResult.Rereadable s r.index file) :
    ∃ r', onTree s t' paths = .ok (r', t') ∧ r'.report.changes = [] ∧ r'.report.failures = [] ∧
      r'.report.outcome = .clean := by
  rw [onTree_eq] at hRun
  obtain ⟨rfl, rfl⟩ : r = (runOn s t paths).1 ∧ t' = (runOn s t paths).2 := by
    rw [Except.ok.inj hRun]
    exact ⟨rfl, rfl⟩
  rw [failures_runOn] at hFailures
  obtain ⟨hReadable, hSettled⟩ := List.append_eq_nil_iff.mp hFailures
  -- Every path has been read and parsed.
  have hReady := forall₂_readyOn (exists_parsed_of_failures hReadable)
  have hPaths := (map_path_of_forall₂ hReady).symm
  obtain ⟨files', hRedone⟩ := exists_forall₂ (l := readyOn s t paths) (P := fun file file' =>
    FileResult.Redone s (indexOf (readyOn s t paths)) file file' ∧
      parse s (file.path, (runOn s t paths).2.read file.path) = .ok file') <| by
    intro file hfile
    have hNone := List.flatMap_eq_nil_iff.mp hSettled _
      (List.mem_map_of_mem (List.mem_map_of_mem hfile))
    exact exists_redone_after hProvider hParser hDry hDistinct hfile hNone
      (hWorded file hfile) (hAlone file hfile) (hRereadable file hfile)
  refine onTree_of_redone hPaths ?_ hRedone
  rw [hPaths, FileTree.Distinct, List.pairwise_map] at hDistinct
  refine hDistinct.imp_of_mem ?_
  intro f g hf hg hApart
  obtain ⟨_, hBytes, _⟩ := exists_read hf
  obtain ⟨_, hBytes', _⟩ := exists_read hg
  exact same_eq_false hBytes hBytes' hApart

def wiredTree : FileTree ByteArray :=
  ⟨⟨[(["a.php"], FileResult.wiredText.toByteArray)], by simp⟩, [[]], []⟩

theorem onTree_again_wiredTree :
    ∃ r t' r', onTree FileResult.wiredSetup wiredTree [⟨"a.php"⟩] = .ok (r, t') ∧
      r.report.outcome = .changed ∧ onTree FileResult.wiredSetup t' [⟨"a.php"⟩] = .ok (r', t') ∧
      r'.report.outcome = .clean := by
  have hRun := onTree_eq FileResult.wiredSetup wiredTree [⟨"a.php"⟩]
  generalize hFound : runOn FileResult.wiredSetup wiredTree [⟨"a.php"⟩] = found at hRun
  obtain ⟨hOutcome, hFailures, hWorded, hAlone, hEncoding⟩ : found.1.report.outcome = .changed ∧
      found.1.report.failures = [] ∧
      (∀ file ∈ ready found.1.parsed, FileResult.Worded FileResult.wiredSetup found.1.index file) ∧
      (∀ file ∈ ready found.1.parsed, FileResult.Alone Php.parser FileResult.wiredSetup found.1.index file) ∧
      ∀ file ∈ ready found.1.parsed, file.source.encoding = .utf8 := by
    rw [← hFound]
    decide +kernel
  obtain ⟨r', hAgain, _, _, hClean⟩ := onTree_again rfl parser_lawful rfl (by decide +kernel) hRun
    hFailures hWorded hAlone fun file hFile => FileResult.rereadable_of_utf8 rfl (hEncoding file hFile)
  exact ⟨found.1, found.2, r', hRun, hOutcome, hAgain, hClean⟩

/-- A class on the line of the opening tag. -/
def inlineTree : FileTree ByteArray :=
  ⟨⟨[(["a.php"], "<?php class A extends Shell \x7b var $uses = ['Post']; \x7d\n".toByteArray)], by simp⟩,
    [[]], []⟩

def inlineSetup : Setup :=
  ⟨Php.classes, .standard, false, false⟩

/-- The doc block of such a class comes before the opening tag, where it is not found again. -/
theorem onTree_again_inlineTree :
    ∃ r t' r' t'', Php.parser.Lawful ∧ onTree inlineSetup inlineTree [⟨"a.php"⟩] = .ok (r, t') ∧
      r.report.failures = [] ∧ (∀ file ∈ ready r.parsed, FileResult.Worded inlineSetup r.index file) ∧
      onTree inlineSetup t' [⟨"a.php"⟩] = .ok (r', t'') ∧ r'.report.outcome = .changed :=
  ⟨_, _, _, _, parser_lawful, onTree_eq _ _ _, by decide +kernel, by decide +kernel, onTree_eq _ _ _,
    by decide +kernel⟩

/-- A file in ISO-8859-1 whose only byte that is not UTF-8 stands in an annotation that is out of date. -/
def flippedTree : FileTree ByteArray :=
  ⟨⟨[(["a.php"], "<?php\n/**\n * @property Old $Ol".toByteArray ++ ⟨#[0xe9]⟩ ++
      ("\n */\nclass A extends Shell \x7b var $uses = ['Post']; \x7d\n" ++
        "class B extends ê \x7b var $uses = ['Tag']; \x7d\n").toByteArray)], by simp⟩, [[]], []⟩

def flippedSetup : Setup :=
  ⟨Php.classes, { Config.standard with transforms := ⟨OrderedMap.ofList
    [("Shell", OrderedMap.ofList [("uses", .identity)]), ("ê", OrderedMap.ofList [("uses", .identity)])]⟩ },
    false, true⟩

/-- Once the annotation is gone, the file is read as UTF-8, and its other class extends another name. -/
theorem onTree_again_flippedTree :
    ∃ r t' r' t'', onTree flippedSetup flippedTree [⟨"a.php"⟩] = .ok (r, t') ∧ r.report.failures = [] ∧
      (∀ file ∈ ready r.parsed, FileResult.Worded flippedSetup r.index file) ∧
      (∀ file ∈ ready r.parsed, FileResult.Alone Php.parser flippedSetup r.index file) ∧
      onTree flippedSetup t' [⟨"a.php"⟩] = .ok (r', t'') ∧ r'.report.outcome = .changed :=
  ⟨_, _, _, _, onTree_eq _ _ _, by decide +kernel, by decide +kernel, by decide +kernel, onTree_eq _ _ _,
    by decide +kernel⟩

end Run

end DocWiring
