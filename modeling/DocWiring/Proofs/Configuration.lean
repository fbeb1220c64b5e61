import DocWiring.Discovery
import DocWiring.Proofs.Run.Truth

/-! # Nothing is wrong with a configuration later on

What is wrong with a configuration is found when it is read.  The patterns of a valid configuration
can be read again, so that only a source that is not there ends the search for files; and a run over
files ends with a report whatever the configuration is.
-/

namespace DocWiring

namespace FileFilter

theorem patterns_eq_error_iff {texts : List String} {fault : ConfigurationFault} :
    patterns texts = .error fault ↔ Config.globFault? texts = some fault := by
  induction texts with
  | nil => simp [patterns, Config.globFault?]
  | cons text rest ih =>
    rw [Config.globFault?] at ih
    rw [patterns, Config.globFault?, List.findSome?_cons]
    cases Config.pattern text with
    | error found => simp [bind, Except.bind]
    | ok p =>
      rw [← ih]
      cases patterns rest <;> simp [bind, Except.bind, pure, Except.pure]

theorem exists_patterns {texts : List String} (h : Config.globFault? texts = none) :
    ∃ ps, patterns texts = .ok ps := by
  cases hPatterns : patterns texts with
  | ok ps => exact ⟨ps, rfl⟩
  | error fault =>
    rw [patterns_eq_error_iff, h] at hPatterns
    cases hPatterns

theorem exists_ofConfig_of_globs {c : Config}
    (h : Config.globFault? (c.included ++ c.excluded) = none) : ∃ filter, ofConfig c = .ok filter := by
  rw [Config.globFault?, List.findSome?_append, Option.or_eq_none_iff] at h
  obtain ⟨included, hIncluded⟩ := exists_patterns h.1
  obtain ⟨excluded, hExcluded⟩ := exists_patterns h.2
  exact ⟨⟨included, excluded⟩, by rw [ofConfig, hIncluded, hExcluded]⟩

theorem exists_ofConfig {c : Config} (h : c.fault? = none) : ∃ filter, ofConfig c = .ok filter := by
  unfold Config.fault? at h
  split at h
  next => cases h
  next hNone => exact exists_ofConfig_of_globs hNone

end FileFilter

theorem Config.fault?_eq_none {c valid : Config} (h : c.validated = .ok valid) : c.fault? = none := by
  unfold validated at h
  split at h
  next => cases h
  next hNone => exact hNone

namespace Discovery

variable {α : Type} {t : FileTree α} {filter : FileFilter} {e : Error}

/-- The error is that of the first source that is not there. -/
def FirstMissing (t : FileTree α) (sources : List Path) (e : Error) : Prop :=
  ∃ front source back cause, sources = front ++ source :: back ∧
    (∀ q ∈ front, t.contains q = true) ∧ t.resolve source = .error cause ∧
    e = .io (.atPath source cause)

theorem firstMissing_cons_of_error {source : Path} {sources : List Path} {cause : OsError}
    (h : t.resolve source = .error cause) :
    FirstMissing t (source :: sources) e ↔ e = .io (.atPath source cause) := by
  constructor
  · rintro ⟨front, missing, back, cause', hSources, hFront, hMissing, rfl⟩
    cases front with
    | nil =>
      obtain ⟨rfl, rfl⟩ := List.cons.inj hSources
      rw [Except.error.inj (h.symm.trans hMissing)]
    | cons q front =>
      obtain ⟨rfl, _⟩ := List.cons.inj hSources
      have hThere := hFront source List.mem_cons_self
      rw [FileTree.contains, h] at hThere
      cases hThere
  · rintro rfl
    exact ⟨[], source, sources, cause, rfl, by simp, h, rfl⟩

theorem firstMissing_cons_of_ok {source : Path} {sources : List Path}
    (h : t.contains source = true) :
    FirstMissing t (source :: sources) e ↔ FirstMissing t sources e := by
  constructor
  · rintro ⟨front, missing, back, cause, hSources, hFront, hMissing, rfl⟩
    cases front with
    | nil =>
      obtain ⟨rfl, rfl⟩ := List.cons.inj hSources
      rw [FileTree.contains, hMissing] at h
      cases h
    | cons q front =>
      obtain ⟨rfl, rfl⟩ := List.cons.inj hSources
      exact ⟨front, missing, back, cause, rfl, (List.forall_mem_cons.mp hFront).2, hMissing, rfl⟩
  · rintro ⟨front, missing, back, cause, rfl, hFront, hMissing, rfl⟩
    exact ⟨source :: front, missing, back, cause, rfl, List.forall_mem_cons.mpr ⟨h, hFront⟩,
      hMissing, rfl⟩

theorem ofSource_cases (t : FileTree α) (filter : FileFilter) (source : Path) :
    (∃ cause, t.resolve source = .error cause ∧
        ofSource t filter source = .error (.io (.atPath source cause))) ∨
      (t.contains source = true ∧ ∃ found, ofSource t filter source = .ok found) := by
  unfold ofSource FileTree.contains
  cases t.resolve source with
  | error cause => exact .inl ⟨cause, rfl, rfl⟩
  | ok found =>
    obtain ⟨place, entry⟩ := found
    cases entry with
    | file content => exact .inr ⟨rfl, _, rfl⟩
    | folder => exact .inr ⟨rfl, _, rfl⟩

/-- Files are collected up to the first source that is not there. -/
theorem collect_eq_error_iff {found : List FoundFile} {sources : List Path} :
    collect t filter found sources = .error e ↔ FirstMissing t sources e := by
  induction sources generalizing found with
  | nil => simp [collect, FirstMissing]
  | cons source rest ih =>
    rw [collect]
    rcases ofSource_cases t filter source with ⟨cause, hMissing, hSource⟩ | ⟨hThere, more, hSource⟩
    · rw [hSource, firstMissing_cons_of_error hMissing]
      simp [bind, Except.bind, eq_comm]
    · rw [hSource, firstMissing_cons_of_ok hThere]
      exact ih

theorem discover_eq_error_iff {c : Config} {sources : List Path} (h : FileFilter.ofConfig c = .ok filter) :
    discover t c sources = .error e ↔ FirstMissing t sources e := by
  have hCollect : collect t filter [] sources = .error e ↔ FirstMissing t sources e :=
    collect_eq_error_iff
  rw [discover, h, ← hCollect]
  cases hFound : collect t filter [] sources <;> simp [bind, Except.bind, pure, Except.pure, hFound]

end Discovery

namespace Config

open Discovery

/-- A valid configuration gives a filter, and only a source that is not there ends the search for files.
With any configuration, a run ends with a report: no class can show an attribute that is not collected. -/
theorem discovers_and_runs {α : Type} :
    (∀ c : Config, c.validated = .ok c → (∃ filter, FileFilter.ofConfig c = .ok filter) ∧
      ∀ (t : FileTree α) sources e, discover t c sources = .error e ↔ FirstMissing t sources e) ∧
    ∀ s : Setup, (∀ inputs, ∃ r, Run.plan s inputs = .ok r) ∧
      (∀ t paths, ∃ r after, Run.onTree s t paths = .ok (r, after)) ∧
      (∀ index file, ∀ o ∈ FileResult.classOutcomes s index file .start file.classes,
        FileResult.runError? o = none) ∧
      ∀ ancestor rules, s.config.transforms.rulesFor? ancestor = some rules → ∀ extraction,
        ∃ annotations, Merge.render s.extractor extraction rules = .ok annotations := by
  refine ⟨fun c hValid => ?_, fun s => ⟨Run.exists_plan s, fun t paths => ?_, ?_, ?_⟩⟩
  · obtain ⟨filter, hFilter⟩ := FileFilter.exists_ofConfig (fault?_eq_none hValid)
    exact ⟨⟨filter, hFilter⟩, fun t sources e => discover_eq_error_iff hFilter⟩
  · exact ⟨_, _, Run.onTree_eq s t paths⟩
  · exact fun index file o ho => FileResult.runError?_eq_none ho
  · intro ancestor rules hRules extraction
    exact Merge.exists_render extraction fun name => Setup.knows_of_rulesFor? hRules

/-- A configuration with an ancestor, an attribute and a suffix that are all empty. -/
def unnamed : Config :=
  { standard with transforms := ⟨OrderedMap.ofList [("", OrderedMap.ofList [("", .appendSuffix "")])]⟩ }

theorem discovers_and_runs_unnamed :
    (standard.validated = .ok standard ∧ (∃ filter, FileFilter.ofConfig standard = .ok filter) ∧
      discover Run.shellTree standard [⟨"a.php"⟩, ⟨"c.php"⟩, ⟨"d.php"⟩] =
        .error (.io (.atPath ⟨"c.php"⟩ .notFound))) ∧
    unnamed.validated = .error (.configuration .emptyAncestor) ∧
      (∃ r after, Run.onTree { Run.shellSetup with config := unnamed } Run.shellTree Run.shellPaths =
        .ok (r, after)) ∧
      ∃ annotations, Merge.render ⟨unnamed.transforms.attributeNames⟩ Merge.postExtraction
        (OrderedMap.ofList [("", .appendSuffix "")]) = .ok annotations := by
  have hValid : standard.validated = .ok standard := by decide +kernel
  have hRules : unnamed.transforms.rulesFor? "" =
      some (OrderedMap.ofList [("", .appendSuffix "")]) := by decide +kernel
  have hFirst : FirstMissing Run.shellTree [⟨"a.php"⟩, ⟨"c.php"⟩, ⟨"d.php"⟩]
      (.io (.atPath ⟨"c.php"⟩ .notFound)) := by
    have hMissing : Run.shellTree.resolve ⟨"c.php"⟩ = .error .notFound := by rfl
    exact ⟨[⟨"a.php"⟩], ⟨"c.php"⟩, [⟨"d.php"⟩], .notFound, rfl, by decide +kernel, hMissing, rfl⟩
  obtain ⟨hFound, hRuns⟩ := discovers_and_runs
  obtain ⟨hFilter, hDiscover⟩ := hFound standard hValid
  obtain ⟨_, hReport, _, hRender⟩ := hRuns { Run.shellSetup with config := unnamed }
  exact ⟨⟨hValid, hFilter, (hDiscover _ _ _).mpr hFirst⟩, by decide +kernel,
    hReport Run.shellTree Run.shellPaths, hRender "" _ hRules Merge.postExtraction⟩

end Config

end DocWiring
