import DocWiring.Proofs.Ancestry
import DocWiring.Proofs.Run.Outcome
import DocWiring.Proofs.Run.Writing
import DocWiring.Proofs.Wiring
import Mathlib.Data.List.Basic

/-! # Every run ends with a report

The error of a class never reaches further than the class: the extractor of a run collects every
attribute that has a rule, so that no class can show the configuration to be wrong.  What becomes of a
file is therefore a function of the index and the file, and a run over files always succeeds.
-/

namespace DocWiring

theorem Setup.knows_of_rulesFor? {s : Setup} {ancestor : String} {rules : AttributeRules}
    (h : s.config.transforms.rulesFor? ancestor = some rules) {name : String}
    (hName : name ∈ rules.keys) : s.extractor.knows name = true := by
  apply NameSet.contains_ofNames.mpr
  exact List.mem_flatMap.mpr ⟨(ancestor, rules), OrderedMap.mem_of_find?_eq_some h, hName⟩

theorem Merge.exists_render {x : Extractor} {rules : AttributeRules} (extraction : Extraction)
    (h : ∀ name ∈ rules.keys, x.knows name = true) :
    ∃ annotations, render x extraction rules = .ok annotations :=
  ⟨_, render_eq h extraction⟩

theorem Except.mem_toOption_iff {ε α : Type} {x : Except ε α} {a : α} : a ∈ x.toOption ↔ x = .ok a := by
  cases x <;> simp [Except.toOption, eq_comm]

theorem Merge.scope_of_merge {x : Extractor} {remove : Bool} {u : SourceUnit} {cls : ClassNode}
    {extraction : Extraction} {rules : AttributeRules} {e : Error}
    (hKnown : ∀ name ∈ rules.keys, x.knows name = true)
    (h : merge x remove u cls extraction rules = .error e) : e.scope = .oneClass := by
  obtain ⟨annotations, hRender⟩ := exists_render extraction hKnown
  cases hLocate : DocBlock.locate u cls with
  | ok b =>
    rw [merge_eq_ok hRender hLocate] at h
    cases h
  | error e' =>
    unfold merge at h
    simp only [hRender, hLocate, bind, Except.bind] at h
    split at h
    next => cases h
    next =>
      cases h
      obtain ⟨_, _, rfl⟩ := DocBlock.eq_format_of_locate hLocate
      rfl

theorem ClassIndex.scope_of_topAncestor {x : ClassIndex} {name : String} {e : Error}
    (h : x.topAncestor name = .error e) : e.scope = .oneClass := by
  have hAnswers := answers_topAncestor x name
  rw [h] at hAnswers
  cases hAnswers with
  | cyclic => rfl
  | tooLong => rfl

theorem Traversal.scope_of_visit {t : Traversal} {x : Extractor} {path : Path} {cls : ClassNode}
    {e : Error} (h : (t.visit x path cls).1 = .error e) : e.scope = .oneClass := by
  unfold visit at h
  split at h
  next =>
    cases h
    rfl
  next =>
    dsimp only at h
    unfold Extractor.extract at h
    dsimp only at h
    split at h
    next =>
      cases h
      rfl
    next => cases h

namespace FileResult

variable {s : Setup} {index : ClassIndex} {file : ParsedFile} {t : Traversal} {cls : ClassNode}
  {e : Error}

theorem Steps.scope {outcome : ClassOutcome} {next : Traversal}
    (h : Steps s index file t cls outcome next) (hError : outcome.error? = some e) :
    e.scope = .oneClass := by
  cases h with
  | unowned | unruled => cases hError
  | unclimbed _ climbed =>
    obtain rfl := Option.some.inj hError
    exact ClassIndex.scope_of_topAncestor climbed
  | visited _ _ ruled visit merges =>
    cases merges with
    | unextracted =>
      obtain rfl := Option.some.inj hError
      exact Traversal.scope_of_visit (congrArg Prod.fst visit)
    | unmerged merge =>
      obtain rfl := Option.some.inj hError
      exact Merge.scope_of_merge (fun _ => Setup.knows_of_rulesFor? ruled) merge
    | complete | patched => cases hError

/-- A class that fails loses only its own patch. -/
theorem scope_of_error {classes : List ClassNode} {o : ClassNode × ClassOutcome}
    (ho : o ∈ classOutcomes s index file t classes) (h : o.2.error? = some e) :
    e.scope = .oneClass := by
  obtain ⟨_, _, hSteps, _⟩ := exists_steps_of_mem ho
  exact hSteps.scope h

def resultOf (s : Setup) (index : ClassIndex) (file : ParsedFile) : FileResult :=
  let os := classOutcomes s index file .start file.classes
  ⟨file.path, os, if (patchesOf os).isEmpty then .kept else endingOf s file (patchesOf os)⟩

theorem runError?_eq_none {classes : List ClassNode} {o : ClassNode × ClassOutcome}
    (ho : o ∈ classOutcomes s index file t classes) : runError? o = none := by
  cases hError : o.2.error? with
  | none => rw [runError?, hError, Option.filter_none]
  | some e =>
    have hScope := scope_of_error ho hError
    simp [runError?, hError, hScope]

theorem ofFile_eq (s : Setup) (index : ClassIndex) (file : ParsedFile) :
    ofFile s index file = .ok (resultOf s index file) := by
  have hNone : (classOutcomes s index file .start file.classes).findSome? runError? = none :=
    List.findSome?_eq_none_iff.mpr fun _ => runError?_eq_none
  unfold ofFile
  simp only [hNone]
  rfl

theorem ends_resultOf (s : Setup) (index : ClassIndex) (file : ParsedFile) :
    Ends s file (patchesOf (classOutcomes s index file .start file.classes))
      (resultOf s index file).ending := by
  unfold resultOf
  dsimp only
  split
  next hNone =>
    rw [List.isEmpty_iff.mp hNone]
    exact .same (Patch.applyAll_nil _)
  next => exact ends_endingOf _ _ _

/-- A change has the path of the file and the names of the classes that are patched. -/
def Names (r : FileResult) : Prop :=
  ∀ c, r.change? = some c → c.path = r.path ∧ c.classes = (patchesOf r.outcomes).map Prod.fst

theorem names_resultOf (s : Setup) (index : ClassIndex) (file : ParsedFile) :
    (resultOf s index file).Names := by
  intro c h
  obtain ⟨bytes, hEnding⟩ := exists_ending_of_change h
  have hEnds := ends_resultOf s index file
  rw [hEnding] at hEnds
  cases hEnds <;> exact ⟨rfl, rfl⟩

theorem path_of_mem_failures {r : FileResult} {f : Failure} (h : f ∈ r.failures) : f.path = r.path := by
  rcases List.mem_append.mp h with hClass | hEnding
  · obtain ⟨o, _, hFailure⟩ := List.mem_filterMap.mp hClass
    obtain ⟨e, _, rfl⟩ := Option.map_eq_some_iff.mp hFailure
    rfl
  · split at hEnding
    next => rw [List.mem_singleton.mp hEnding]
    next => cases hEnding

end FileResult

namespace Run

variable {s : Setup} {t : FileTree ByteArray} {paths : List Path} {file : ParsedFile}

theorem exists_of_mem_left {α β : Type} {P : α → β → Prop} {l : List α} {m : List β}
    (h : List.Forall₂ P l m) {a : α} (ha : a ∈ l) : ∃ b, (a, b) ∈ l.zip m := by
  rw [← List.map_fst_zip h.length_eq.le] at ha
  obtain ⟨⟨_, b⟩, hMem, rfl⟩ := List.mem_map.mp ha
  exact ⟨b, hMem⟩

theorem exists_of_mem_right {α β : Type} {P : α → β → Prop} {l : List α} {m : List β}
    (h : List.Forall₂ P l m) {b : β} (hb : b ∈ m) : ∃ a, (a, b) ∈ l.zip m := by
  rw [← List.map_snd_zip h.length_eq.ge] at hb
  obtain ⟨⟨a, _⟩, hMem, rfl⟩ := List.mem_map.mp hb
  exact ⟨a, hMem⟩

/-- The files at some paths, read and parsed. -/
def parsedOn (s : Setup) (t : FileTree ByteArray) (paths : List Path) :
    List (Path × Except Error ParsedFile) :=
  paths.map fun p => (p, parse s (p, t.read p))

/-- The files at some paths that could be read and parsed. -/
def readyOn (s : Setup) (t : FileTree ByteArray) (paths : List Path) : List ParsedFile :=
  ready (parsedOn s t paths)

def indexOf (files : List ParsedFile) : ClassIndex :=
  (fillIndex .empty (declared files)).1

/-- What becomes of some files before any of them is written. -/
def planned (s : Setup) (files : List ParsedFile) : List FileResult :=
  files.map (FileResult.resultOf s (indexOf files))

theorem resultsOf_eq (s : Setup) (index : ClassIndex) (files : List ParsedFile) :
    resultsOf s index files = .ok (files.map (FileResult.resultOf s index)) := by
  induction files with
  | nil => rfl
  | cons file files ih =>
    rw [resultsOf, FileResult.ofFile_eq, ih]
    rfl

theorem exists_plan (s : Setup) (inputs : List Input) : ∃ r, plan s inputs = .ok r := by
  unfold plan
  simp only [resultsOf_eq]
  exact ⟨_, rfl⟩

/-- What a run on a tree has found, and the tree after it. -/
def runOn (s : Setup) (t : FileTree ByteArray) (paths : List Path) : Run × FileTree ByteArray :=
  let files := readyOn s t paths
  let written := writeAll t (planned s files)
  (⟨s.dryRun, parsedOn s t paths, indexOf files, (fillIndex .empty (declared files)).2, written.1⟩,
    written.2)

theorem onTree_eq (s : Setup) (t : FileTree ByteArray) (paths : List Path) :
    onTree s t paths = .ok (runOn s t paths) := by
  unfold onTree plan
  simp only [List.map_map, resultsOf_eq]
  rfl

theorem parseFailure?_eq_some_iff {parsed : Path × Except Error ParsedFile} {f : Failure} :
    parseFailure? parsed = some f ↔ ∃ e, parsed.2 = .error e ∧ f = ⟨parsed.1, none, e⟩ := by
  cases h : parsed.2 <;> simp [parseFailure?, h, eq_comm]

theorem readyOn_eq_filterMap (s : Setup) (t : FileTree ByteArray) (paths : List Path) :
    readyOn s t paths = paths.filterMap fun p => (parse s (p, t.read p)).toOption := by
  rw [readyOn, ready, parsedOn, List.filterMap_map]
  rfl

theorem of_parse {input : Input} (h : parse s input = .ok file) :
    file.path = input.1 ∧ ∃ bytes, input.2 = .ok bytes ∧ file.source = .ofBytes bytes := by
  unfold parse at h
  split at h
  next => cases h
  next bytes hRead =>
    dsimp only at h
    split at h
    next =>
      rw [← Except.ok.inj h]
      exact ⟨rfl, bytes, hRead, rfl⟩
    next =>
      obtain ⟨_, _, rfl⟩ := Except.exists_of_map_eq_ok h
      exact ⟨rfl, bytes, hRead, rfl⟩

theorem mem_readyOn_iff : file ∈ readyOn s t paths ↔
    file.path ∈ paths ∧ parse s (file.path, t.read file.path) = .ok file := by
  rw [readyOn_eq_filterMap, List.mem_filterMap]
  constructor
  · rintro ⟨p, hp, hFile⟩
    have hParse : parse s (p, t.read p) = .ok file := Except.mem_toOption_iff.mp hFile
    obtain rfl : file.path = p := (of_parse hParse).1
    exact ⟨hp, hParse⟩
  · rintro ⟨hp, hParse⟩
    exact ⟨file.path, hp, by rw [hParse]; rfl⟩

theorem exists_read (h : file ∈ readyOn s t paths) :
    ∃ bytes, t.read file.path = .ok bytes ∧ file.source = .ofBytes bytes :=
  (of_parse (mem_readyOn_iff.mp h).2).2

theorem sublist_readyOn (s : Setup) (t : FileTree ByteArray) (paths : List Path) :
    ((readyOn s t paths).map ParsedFile.path).Sublist paths := by
  rw [readyOn_eq_filterMap]
  induction paths with
  | nil => exact .slnil
  | cons p paths ih =>
    cases hParse : parse s (p, t.read p) with
    | error e => simpa [hParse, Except.toOption] using ih.cons p
    | ok file =>
      have hPath : file.path = p := (of_parse hParse).1
      simpa [hParse, Except.toOption, hPath] using ih

@[simp] theorem map_path_planned (s : Setup) (files : List ParsedFile) :
    (planned s files).map FileResult.path = files.map ParsedFile.path := by
  rw [planned, List.map_map]
  rfl

theorem leadsToFile_of_mem_planned {r : FileResult} (h : r ∈ planned s (readyOn s t paths)) :
    t.LeadsToFile r.path := by
  obtain ⟨file, hFile, rfl⟩ := List.mem_map.mp h
  obtain ⟨bytes, hRead, _⟩ := exists_read hFile
  exact FileTree.leadsToFile_of_read hRead

theorem distinct_planned (h : t.Distinct paths) :
    t.Distinct ((planned s (readyOn s t paths)).map FileResult.path) := by
  rw [map_path_planned]
  exact h.sublist (sublist_readyOn s t paths)

/-- The files as they are told of in the report, after writing. -/
def settledOn (s : Setup) (t : FileTree ByteArray) (paths : List Path) : List FileResult :=
  (planned s (readyOn s t paths)).map (settled t)

theorem results_runOn (s : Setup) (t : FileTree ByteArray) (paths : List Path) :
    (runOn s t paths).1.results = settledOn s t paths :=
  map_settled_eq fun _ => leadsToFile_of_mem_planned

section Unwritten

variable (h : ∀ r ∈ planned s (readyOn s t paths), r.bytes? = none)
include h

theorem settledOn_of_nothing : settledOn s t paths = planned s (readyOn s t paths) :=
  (List.map_congr_left fun r hr => settled_of_none (h r hr)).trans (List.map_id _)

theorem runOn_of_nothing : (runOn s t paths).2 = t :=
  congrArg Prod.snd (writeAll_of_nothing h)

end Unwritten

theorem changes_runOn (s : Setup) (t : FileTree ByteArray) (paths : List Path) :
    (runOn s t paths).1.report.changes = (settledOn s t paths).filterMap FileResult.change? := by
  rw [report, results_runOn]

theorem failures_runOn (s : Setup) (t : FileTree ByteArray) (paths : List Path) :
    (runOn s t paths).1.report.failures = (parsedOn s t paths).filterMap parseFailure? ++
      (settledOn s t paths).flatMap FileResult.failures := by
  rw [report, results_runOn]
  rfl

end Run

end DocWiring
