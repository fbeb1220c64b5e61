import DocWiring.Proofs.Merge.Idempotence
import DocWiring.Proofs.Wiring.Traversal
import DocWiring.Run.FileResult

/-! # The classes of a file in a run

A class is merged at most once in a file, and classes that are merged stand on different lines.  The
patches that come of them decide how the file ends.
-/

namespace DocWiring

/-- The class has been compared with its doc block, and nothing failed. -/
def ClassOutcome.isMerged : ClassOutcome → Bool
  | .complete => true
  | .patched _ => true
  | _ => false

theorem ClassOutcome.error?_of_isMerged {o : ClassOutcome} (h : o.isMerged = true) : o.error? = none := by
  cases o with
  | passedOver | unrecognized | failed => cases h
  | complete | patched => rfl

theorem ClassOutcome.patch?_eq_some_iff {o : ClassOutcome} {p : Patch} :
    o.patch? = some p ↔ o = .patched p := by
  cases o <;> simp [patch?]

namespace FileResult

variable {s : Setup} {index : ClassIndex} {file : ParsedFile}

/-- How a class comes to be merged. -/
structure Merging (s : Setup) (index : ClassIndex) (file : ParsedFile) (cls : ClassNode)
    (outcome : ClassOutcome) (ancestor : String) (rules : AttributeRules) (x : Extraction) : Prop where
  owned : (cls.parent.isSome && index.isOwner cls.name file.path cls.startLine) = true
  climbed : index.topAncestor cls.name = .ok ancestor
  ruled : s.config.transforms.rulesFor? ancestor = some rules
  extracted : s.extractor.extract file.path cls = .ok x
  merged : outcome = mergeClass s file rules cls (.ok x)

/-- What merging a class comes to, for what was extracted from it. -/
inductive Merges (s : Setup) (file : ParsedFile) (rules : AttributeRules) (cls : ClassNode) :
    Except Error Extraction → ClassOutcome → Prop where
  | unextracted {e : Error} : Merges s file rules cls (.error e) (.failed e)
  | unmerged {x : Extraction} {e : Error}
    (merge : Merge.merge s.extractor s.removes file.source cls x rules = .error e) :
    Merges s file rules cls (.ok x) (.failed e)
  | complete {x : Extraction}
    (merge : Merge.merge s.extractor s.removes file.source cls x rules = .ok none) :
    Merges s file rules cls (.ok x) .complete
  | patched {x : Extraction} {p : Patch}
    (merge : Merge.merge s.extractor s.removes file.source cls x rules = .ok (some p)) :
    Merges s file rules cls (.ok x) (.patched p)

theorem merges_mergeClass (s : Setup) (file : ParsedFile) (rules : AttributeRules) (cls : ClassNode)
    (extraction : Except Error Extraction) :
    Merges s file rules cls extraction (mergeClass s file rules cls extraction) := by
  cases extraction with
  | error => exact .unextracted
  | ok =>
    dsimp only [mergeClass]
    split
    next hMerge => exact .unmerged hMerge
    next hMerge => exact .complete hMerge
    next hMerge => exact .patched hMerge

namespace Merges

variable {rules : AttributeRules} {cls : ClassNode} {extraction : Except Error Extraction}
  {outcome : ClassOutcome}

theorem eq (h : Merges s file rules cls extraction outcome) :
    outcome = mergeClass s file rules cls extraction := by
  cases h with
  | unextracted => rfl
  | unmerged merge | complete merge | patched merge => simp only [mergeClass, merge]

theorem exists_extraction (h : Merges s file rules cls extraction outcome)
    (hError : outcome.error? = none) : ∃ x, extraction = .ok x := by
  cases h with
  | unextracted | unmerged => cases hError
  | complete | patched => exact ⟨_, rfl⟩

end Merges

theorem Merging.merges {cls : ClassNode} {outcome : ClassOutcome} {ancestor : String}
    {rules : AttributeRules} {x : Extraction}
    (h : Merging s index file cls outcome ancestor rules x) : Merges s file rules cls (.ok x) outcome := by
  rw [h.merged]
  exact merges_mergeClass _ _ _ _ _

/-- What one class of a file comes to, and the classes met after it. -/
inductive Steps (s : Setup) (index : ClassIndex) (file : ParsedFile) (t : Traversal) (cls : ClassNode) :
    ClassOutcome → Traversal → Prop where
  | unowned
    (unowned : ¬ (cls.parent.isSome && index.isOwner cls.name file.path cls.startLine) = true) :
    Steps s index file t cls .passedOver t
  | unclimbed {e : Error}
    (owned : (cls.parent.isSome && index.isOwner cls.name file.path cls.startLine) = true)
    (climbed : index.topAncestor cls.name = .error e) : Steps s index file t cls (.failed e) t
  | unruled {ancestor : String}
    (owned : (cls.parent.isSome && index.isOwner cls.name file.path cls.startLine) = true)
    (climbed : index.topAncestor cls.name = .ok ancestor)
    (unruled : s.config.transforms.rulesFor? ancestor = none) :
    Steps s index file t cls (.unrecognized ancestor) t
  | visited {ancestor : String} {rules : AttributeRules} {extraction : Except Error Extraction}
    {outcome : ClassOutcome} {next : Traversal}
    (owned : (cls.parent.isSome && index.isOwner cls.name file.path cls.startLine) = true)
    (climbed : index.topAncestor cls.name = .ok ancestor)
    (ruled : s.config.transforms.rulesFor? ancestor = some rules)
    (visit : t.visit s.extractor file.path cls = (extraction, next))
    (merges : Merges s file rules cls extraction outcome) : Steps s index file t cls outcome next

theorem steps_classStep (s : Setup) (index : ClassIndex) (file : ParsedFile) (t : Traversal)
    (cls : ClassNode) :
    Steps s index file t cls (classStep s index file t cls).1 (classStep s index file t cls).2 := by
  unfold classStep
  split
  next hOwned =>
    split
    next hAncestor => exact .unclimbed hOwned hAncestor
    next hAncestor =>
      split
      next hRules => exact .unruled hOwned hAncestor hRules
      next hRules => exact .visited hOwned hAncestor hRules rfl (merges_mergeClass _ _ _ _ _)
  next hOwned => exact .unowned hOwned

namespace Steps

variable {t next : Traversal} {cls other : ClassNode} {outcome : ClassOutcome}

theorem eq (h : Steps s index file t cls outcome next) :
    classStep s index file t cls = (outcome, next) := by
  cases h with
  | unowned hUnowned => rw [classStep, if_neg hUnowned]
  | unclimbed owned climbed => simp only [classStep, if_pos owned, climbed]
  | unruled owned climbed hUnruled => simp only [classStep, if_pos owned, climbed, hUnruled]
  | visited owned climbed ruled visit merges =>
    simp only [classStep, if_pos owned, climbed, ruled, visit, merges.eq]

theorem exists_merging (h : Steps s index file t cls outcome next) (hMerged : outcome.isMerged = true) :
    t.met file.path cls = false ∧
      ∃ ancestor rules x, Merging s index file cls outcome ancestor rules x := by
  cases h with
  | unowned | unclimbed | unruled => cases hMerged
  | visited owned climbed ruled visit merges =>
    obtain ⟨x, rfl⟩ := merges.exists_extraction (ClassOutcome.error?_of_isMerged hMerged)
    obtain ⟨hFresh, hExtract, _⟩ := Traversal.visit_eq_ok_iff.mp visit
    exact ⟨hFresh, _, _, x, owned, climbed, ruled, hExtract, merges.eq⟩

theorem met (h : Steps s index file t cls outcome next) (hMet : t.met file.path other = true) :
    next.met file.path other = true := by
  cases h with
  | unowned | unclimbed | unruled => exact hMet
  | visited _ _ _ visit =>
    have hNext : (t.visit s.extractor file.path cls).2 = next := congrArg Prod.snd visit
    exact hNext ▸ Traversal.met_visit_iff.mpr (.inl hMet)

end Steps

theorem classOutcomes_cons (s : Setup) (index : ClassIndex) (file : ParsedFile) (t : Traversal)
    (cls : ClassNode) (rest : List ClassNode) : classOutcomes s index file t (cls :: rest) =
      (cls, (classStep s index file t cls).1) ::
        classOutcomes s index file (classStep s index file t cls).2 rest :=
  rfl

theorem map_fst_classOutcomes (t : Traversal) (classes : List ClassNode) :
    (classOutcomes s index file t classes).map Prod.fst = classes := by
  induction classes generalizing t with
  | nil => rfl
  | cons cls rest ih => rw [classOutcomes_cons, List.map_cons, ih]

theorem mem_of_mem_classOutcomes {t : Traversal} {classes : List ClassNode}
    {o : ClassNode × ClassOutcome} (ho : o ∈ classOutcomes s index file t classes) : o.1 ∈ classes := by
  have hFirst := List.mem_map_of_mem (f := Prod.fst) ho
  rwa [map_fst_classOutcomes] at hFirst

/-- Every outcome comes of a step that has met all that was met before the first one. -/
theorem exists_steps_of_mem {t : Traversal} {classes : List ClassNode} {o : ClassNode × ClassOutcome}
    (ho : o ∈ classOutcomes s index file t classes) :
    ∃ before after, Steps s index file before o.1 o.2 after ∧
      ∀ cls, t.met file.path cls = true → before.met file.path cls = true := by
  induction classes generalizing t with
  | nil => simp [classOutcomes] at ho
  | cons cls rest ih =>
    rw [classOutcomes_cons] at ho
    rcases List.mem_cons.mp ho with rfl | ho
    · exact ⟨t, _, steps_classStep .., fun _ hMet => hMet⟩
    · obtain ⟨before, after, hSteps, hKept⟩ := ih ho
      exact ⟨before, after, hSteps, fun _ hMet => hKept _ ((steps_classStep ..).met hMet)⟩

/-- No class that has been met before is merged. -/
theorem met_eq_false_of_mem {t : Traversal} {classes : List ClassNode} {o : ClassNode × ClassOutcome}
    (ho : o ∈ classOutcomes s index file t classes) (hMerged : o.2.isMerged = true) :
    t.met file.path o.1 = false := by
  obtain ⟨before, _, hSteps, hKept⟩ := exists_steps_of_mem ho
  rw [← Bool.not_eq_true]
  intro hMet
  have hFresh := (hSteps.exists_merging hMerged).1
  rw [hKept _ hMet] at hFresh
  cases hFresh

theorem exists_merging_of_mem {t : Traversal} {classes : List ClassNode}
    {o : ClassNode × ClassOutcome} (ho : o ∈ classOutcomes s index file t classes)
    (hMerged : o.2.isMerged = true) :
    ∃ ancestor rules x, Merging s index file o.1 o.2 ancestor rules x := by
  obtain ⟨_, _, hSteps, _⟩ := exists_steps_of_mem ho
  exact (hSteps.exists_merging hMerged).2

/-- The class owns its name, and its top ancestor has rules.  It is met then, if nothing stops it. -/
structure Ruled (s : Setup) (index : ClassIndex) (file : ParsedFile) (cls : ClassNode) : Prop where
  owned : (cls.parent.isSome && index.isOwner cls.name file.path cls.startLine) = true
  ruled : ∃ ancestor rules, index.topAncestor cls.name = .ok ancestor ∧
    s.config.transforms.rulesFor? ancestor = some rules

theorem Merging.toRuled {cls : ClassNode} {outcome : ClassOutcome} {ancestor : String}
    {rules : AttributeRules} {x : Extraction}
    (h : Merging s index file cls outcome ancestor rules x) : Ruled s index file cls :=
  ⟨h.owned, ancestor, rules, h.climbed, h.ruled⟩

theorem met_classStep_of_ruled (t : Traversal) {cls : ClassNode} (h : Ruled s index file cls) :
    (classStep s index file t cls).2.met file.path cls = true := by
  obtain ⟨ancestor, rules, hAncestor, hRules⟩ := h.ruled
  simp only [classStep, if_pos h.owned, hAncestor, hRules]
  exact Traversal.met_visit_iff.mpr (.inr ⟨rfl, rfl⟩)

/-- After a class with rules, no class on its line is merged. -/
theorem pairwise_ruled (t : Traversal) (classes : List ClassNode) :
    (classOutcomes s index file t classes).Pairwise fun o o' =>
      Ruled s index file o.1 → o'.2.isMerged = true → o.1.startLine ≠ o'.1.startLine := by
  induction classes generalizing t with
  | nil => exact .nil
  | cons cls rest ih =>
    rw [classOutcomes_cons, List.pairwise_cons]
    refine ⟨?_, ih _⟩
    intro o ho hRuled hMerged hSame
    have hFresh := met_eq_false_of_mem ho hMerged
    have hMet := met_classStep_of_ruled t hRuled
    have hLine : cls.startLine = o.1.startLine := hSame
    rw [Traversal.met, hLine] at hMet
    rw [Traversal.met, hMet] at hFresh
    cases hFresh

/-- Classes that are merged start on different lines. -/
theorem pairwise_merged (t : Traversal) (classes : List ClassNode) :
    (classOutcomes s index file t classes).Pairwise fun o o' =>
      o.2.isMerged = true → o'.2.isMerged = true → o.1.startLine ≠ o'.1.startLine := by
  refine (pairwise_ruled t classes).imp_of_mem ?_
  intro o o' ho _ hApart hMerged hMerged'
  obtain ⟨_, _, _, hMerging⟩ := exists_merging_of_mem ho hMerged
  exact hApart hMerging.toRuled hMerged'

theorem mem_patchesOf_iff {os : List (ClassNode × ClassOutcome)} {name : String} {p : Patch} :
    (name, p) ∈ patchesOf os ↔ ∃ cls, (cls, .patched p) ∈ os ∧ cls.name = name := by
  constructor
  · intro h
    obtain ⟨⟨cls, outcome⟩, ho, hPatch⟩ := List.mem_filterMap.mp h
    obtain ⟨q, hPatched, hSame⟩ := Option.map_eq_some_iff.mp hPatch
    obtain ⟨rfl, rfl⟩ := Prod.mk.inj hSame
    obtain rfl := ClassOutcome.patch?_eq_some_iff.mp hPatched
    exact ⟨cls, ho, rfl⟩
  · rintro ⟨cls, ho, rfl⟩
    exact List.mem_filterMap.mpr ⟨_, ho, rfl⟩

theorem exists_ending_of_change {r : FileResult} {change : FileChange}
    (h : r.change? = some change) :
    ∃ bytes, r.ending = .changed change bytes := by
  unfold change? at h
  split at h
  next found bytes hEnding => exact ⟨bytes, Option.some.inj h ▸ hEnding⟩
  next => cases h

/-- How a file ends for some patches of its classes. -/
inductive Ends (s : Setup) (file : ParsedFile) (patches : List (String × Patch)) : Ending → Prop where
  | rejected {e : Error} (applied : Patch.applyAll file.source (patches.map Prod.snd) = .error e) :
    Ends s file patches (.failed e)
  | same (applied : Patch.applyAll file.source (patches.map Prod.snd) = .ok file.source) :
    Ends s file patches .kept
  | shown {updated : SourceUnit} (dry : s.dryRun = true)
    (applied : Patch.applyAll file.source (patches.map Prod.snd) = .ok updated) :
    Ends s file patches
      (.changed ⟨file.path, file.source.text, updated.text, patches.map Prod.fst⟩ none)
  | unencoded {updated : SourceUnit} {e : Error} (dry : s.dryRun = false)
    (applied : Patch.applyAll file.source (patches.map Prod.snd) = .ok updated)
    (encoded : updated.toBytes = .error e) : Ends s file patches (.failed e)
  | encoded {updated : SourceUnit} {bytes : ByteArray} (dry : s.dryRun = false)
    (applied : Patch.applyAll file.source (patches.map Prod.snd) = .ok updated)
    (encoded : updated.toBytes = .ok bytes) : Ends s file patches
      (.changed ⟨file.path, file.source.text, updated.text, patches.map Prod.fst⟩ (some bytes))

theorem ends_endingOf (s : Setup) (file : ParsedFile) (patches : List (String × Patch)) :
    Ends s file patches (endingOf s file patches) := by
  unfold endingOf
  split
  next hApplied => exact .rejected hApplied
  next updated hApplied =>
    dsimp only
    by_cases hSame : updated = file.source
    · rw [if_pos hSame]
      exact .same (hSame ▸ hApplied)
    · rw [if_neg hSame]
      cases hDry : s.dryRun with
      | true =>
        rw [if_pos rfl]
        exact .shown hDry hApplied
      | false =>
        rw [if_neg Bool.false_ne_true]
        split
        next hEncoded => exact .unencoded hDry hApplied hEncoded
        next hEncoded => exact .encoded hDry hApplied hEncoded

end FileResult

end DocWiring
