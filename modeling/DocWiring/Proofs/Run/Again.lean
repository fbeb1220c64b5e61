import DocWiring.Proofs.Merge.Again
import DocWiring.Proofs.Run.Index

/-! # The classes of a file in a second run

After a run without failures, no class of the revised file has anything left to be done.
-/

namespace DocWiring.FileResult

open DocBlock Merge Php

variable {s : Setup} {index index' : ClassIndex} {file file' : ParsedFile} {parser : SyntaxParser}
  {t t' : Traversal}

theorem extract_alike {x : Extractor} {path : Path} {c c' : ClassNode} (h : c.Alike c')
    {e : Extraction} (hExtract : x.extract path c = .ok e) :
    ∃ e', x.extract path c' = .ok e' ∧ e'.attributes = e.attributes := by
  have hCollected : x.collected c' = x.collected c := by
    rw [Extractor.collected, Extractor.collected, h.attributes]
  unfold Extractor.extract at hExtract ⊢
  rw [hCollected]
  dsimp only at hExtract ⊢
  split at hExtract
  next => cases hExtract
  next =>
    obtain rfl := Except.ok.inj hExtract
    exact ⟨_, rfl, rfl⟩

/-- A class with its outcome, which is no failure, and what the class has become.  It needs no patch. -/
structure Settled (s : Setup) (index : ClassIndex) (file file' : ParsedFile)
    (o : ClassNode × ClassOutcome) (c' : ClassNode) : Prop where
  alike : o.1.Alike c'
  error : o.2.error? = none
  merged : ∀ ancestor rules e e', Merging s index file o.1 o.2 ancestor rules e →
    e'.attributes = e.attributes → merge s.extractor s.removes file'.source c' e' rules = .ok none

/-- The indexes and the lines of two files tell the same of the classes of two files. -/
structure Agreeing (index index' : ClassIndex) (file file' : ParsedFile) : Prop where
  path : file'.path = file.path
  ancestors : index'.topAncestor = index.topAncestor
  owners : ∀ c ∈ file.classes.zip file'.classes,
    index'.isOwner c.2.name file'.path c.2.startLine = index.isOwner c.1.name file.path c.1.startLine
  aligned : ∀ c ∈ file.classes.zip file'.classes, ∀ d ∈ file.classes.zip file'.classes,
    (c.2.startLine = d.2.startLine ↔ c.1.startLine = d.1.startLine)

def SameMet (file file' : ParsedFile) (t t' : Traversal) : Prop :=
  ∀ c ∈ file.classes.zip file'.classes, t'.met file'.path c.2 = t.met file.path c.1

theorem SameMet.visit (h : Agreeing index index' file file') (hMet : SameMet file file' t t')
    {c c' : ClassNode} (hc : (c, c') ∈ file.classes.zip file'.classes) :
    SameMet file file' ⟨⟨file.path, c.startLine⟩ :: t.visited⟩
      ⟨⟨file'.path, c'.startLine⟩ :: t'.visited⟩ := by
  intro d hd
  have hRest : t'.visited.any (·.same ⟨file'.path, d.2.startLine⟩) =
      t.visited.any (·.same ⟨file.path, d.1.startLine⟩) := hMet d hd
  have hLine : (c'.startLine == d.2.startLine) = (c.startLine == d.1.startLine) := by
    rw [Bool.eq_iff_iff, beq_iff_eq, beq_iff_eq]
    exact h.aligned _ hc _ hd
  simp only [Traversal.met, List.any_cons, ClassKey.same, h.path] at hRest ⊢
  rw [hRest, hLine]

theorem Steps.again {outcome : ClassOutcome} {next : Traversal} (h : Agreeing index index' file file')
    (hMet : SameMet file file' t t') {c c' : ClassNode} (hc : (c, c') ∈ file.classes.zip file'.classes)
    (hSteps : Steps s index file t c outcome next) (hSettled : Settled s index file file' (c, outcome) c') :
    ∃ outcome' next', Steps s index' file' t' c' outcome' next' ∧
      (outcome'.patch? = none ∧ outcome'.error? = none) ∧ SameMet file file' next next' := by
  have hOwner : (c'.parent.isSome && index'.isOwner c'.name file'.path c'.startLine) =
      (c.parent.isSome && index.isOwner c.name file.path c.startLine) := by
    rw [hSettled.alike.parent, h.owners _ hc]
  have hClimb : index'.topAncestor c'.name = index.topAncestor c.name := by
    rw [h.ancestors, hSettled.alike.name]
  cases hSteps with
  | unowned hUnowned => exact ⟨_, _, .unowned (hOwner ▸ hUnowned), ⟨rfl, rfl⟩, hMet⟩
  | unclimbed => cases hSettled.error
  | unruled owned climbed hUnruled =>
    exact ⟨_, _, .unruled (hOwner.trans owned) (hClimb.trans climbed) hUnruled, ⟨rfl, rfl⟩, hMet⟩
  | visited owned climbed ruled visit merges =>
    -- The class has been read in the first run, and is read in the second with the same attributes.
    obtain ⟨e, rfl⟩ := merges.exists_extraction hSettled.error
    obtain ⟨hFresh, hExtract, rfl⟩ := Traversal.visit_eq_ok_iff.mp visit
    obtain ⟨e', hExtract', hAttributes⟩ := extract_alike hSettled.alike hExtract
    have hVisit' : t'.visit s.extractor file'.path c' =
        (.ok e', ⟨⟨file'.path, c'.startLine⟩ :: t'.visited⟩) :=
      Traversal.visit_eq_ok_iff.mpr ⟨(hMet _ hc).trans hFresh, h.path.symm ▸ hExtract', rfl⟩
    have hMerge := hSettled.merged _ _ e e' ⟨owned, climbed, ruled, hExtract, merges.eq⟩ hAttributes
    exact ⟨.complete, _, .visited (hOwner.trans owned) (hClimb.trans climbed) ruled hVisit'
      (.complete hMerge), ⟨rfl, rfl⟩, hMet.visit h hc⟩

theorem classOutcomes_again (h : Agreeing index index' file file') {cs cs' : List ClassNode}
    (hMem : cs.zip cs' ⊆ file.classes.zip file'.classes) (hMet : SameMet file file' t t')
    (hSettled : List.Forall₂ (Settled s index file file') (classOutcomes s index file t cs) cs') :
    ∀ o ∈ classOutcomes s index' file' t' cs', o.2.patch? = none ∧ o.2.error? = none := by
  induction cs generalizing t t' cs' with
  | nil =>
    cases hSettled
    simp [classOutcomes]
  | cons c cs ih =>
    rw [classOutcomes_cons] at hSettled
    cases hSettled with
    | @cons _ c' _ cs' hHere hLater =>
      rw [List.zip_cons_cons, List.cons_subset] at hMem
      obtain ⟨outcome', next', hSteps', hNothing, hMet'⟩ :=
        (steps_classStep ..).again h hMet hMem.1 hHere
      rw [classOutcomes_cons, hSteps'.eq]
      exact List.forall_mem_cons.mpr ⟨hNothing, ih hMem.2 hMet' hLater⟩

/-- A class of a file without failures is settled in the revised file. -/
theorem settled_of_revised {o : ClassNode × ClassOutcome} {c' : ClassNode} {lines : Nat → Nat → Prop}
    (hCut : Line.AreCut file.source.lines) (hWorded : Worded s index file)
    (ho : o ∈ classOutcomes s index file .start file.classes) (hError : o.2.error? = none)
    (h : Revised file.source file'.source lines ((fit? s.removes file.source o).map Fit.final) o.1 c') :
    Settled s index file file' o c' := by
  refine ⟨h.alike, hError, ?_⟩
  intro ancestor rules e e' hMerging hAttributes
  obtain ⟨c, outcome⟩ := o
  cases hMerging.merges with
  | unmerged => cases hError
  | complete hMerge => exact merge_of_moved (h.moved rfl) hAttributes hMerge
  | patched hMerge =>
    obtain ⟨annotations, b, hRender, hLocate, _, hFit⟩ := fit?_of_merge hMerge
    obtain ⟨start, hLocate'⟩ := h.settled _ (Option.mem_map_of_mem Fit.final hFit)
    have hAnn : ∀ a ∈ annotations, a.Legible := fun a ha =>
      (hWorded.wordy_of_merging ho hMerging hRender a ha).legible
    rw [merge_eq_ok ((render_congr hAttributes).trans hRender) hLocate',
      mergeBlock_finished (framed_of_locate hCut hLocate).2 hAnn rfl]

/-- Nothing is done for the file, and nothing failed. -/
structure Idle (r : FileResult) : Prop where
  kept : r.ending = .kept
  unfailed : r.failures = []

theorem idle_resultOf (h : ∀ o ∈ classOutcomes s index file .start file.classes,
    o.2.patch? = none ∧ o.2.error? = none) : (resultOf s index file).Idle := by
  have hPatches : patchesOf (classOutcomes s index file .start file.classes) = [] := by
    rw [patchesOf, List.filterMap_eq_nil_iff]
    intro o ho
    rw [(h o ho).1]
    rfl
  have hFailures : (classOutcomes s index file .start file.classes).filterMap
      (classFailure? file.path) = [] := by
    rw [List.filterMap_eq_nil_iff]
    intro o ho
    rw [classFailure?, (h o ho).2]
    rfl
  have hKept : (resultOf s index file).ending = .kept := by
    simp only [resultOf, hPatches, List.isEmpty_nil, if_true]
  refine ⟨hKept, ?_⟩
  rw [failures, hKept]
  exact List.append_eq_nil_iff.mpr ⟨hFailures, rfl⟩

end DocWiring.FileResult
