import DocWiring.Proofs.Configuration
import DocWiring.Proofs.FileTree.Below

/-! # What a search for files finds

The files of the sources arrive one after another, and a place keeps the path it was first reached by.  So
each file that is named, or taken from a folder, is listed once, however often and by whatever paths it is
reached.
-/

namespace DocWiring.Discovery

variable {α : Type} {t : FileTree α} {filter : FileFilter} {source : Path} {f : FoundFile}

/-! ## The files of a source -/

/-- A source leads to a file: it names the file, or a folder above it from which the filter takes it. -/
inductive Arrives (t : FileTree α) (filter : FileFilter) (source : Path) : FoundFile → Prop
  | named {place : Location} {content : α} (hFile : t.resolve source = .ok (place, .file content)) :
      Arrives t filter source ⟨source, place⟩
  | below {folder names : Location} {content : α} (hFolder : t.resolve source = .ok (folder, .folder))
      (hFile : t.find? (folder ++ names) = some (.file content))
      (hAccepts : filter.accepts (relativeText names) = true) :
      Arrives t filter source ⟨source.join (relativeText names), folder ++ names⟩

theorem Arrives.locate (h : Arrives t filter source f) (hTree : t.Regular) :
    t.locate f.path = .ok f.place := by
  cases h with
  | named hFile => exact (FileTree.resolve_eq_ok_iff.mp hFile).1
  | @below folder names content hFolder hFile hAccepts =>
    obtain ⟨hLocate, hFind⟩ := FileTree.resolve_eq_ok_iff.mp hFolder
    have hNames : names ≠ [] := by
      rintro rfl
      rw [List.append_nil, hFind] at hFile
      cases hFile
    exact hTree.locate_join hLocate hNames (FileTree.mem_keys_iff.mpr ⟨content, hFile⟩)

theorem resolve_congr {p q : Path} (h : t.locate q = t.locate p) : t.resolve q = t.resolve p := by
  rw [FileTree.resolve, FileTree.resolve, h]

/-- Paths to one place lead to the same files. -/
theorem Arrives.exists_of_locate_eq {q : Path} (h : Arrives t filter q f)
    (hSame : t.locate q = t.locate source) : ∃ g, Arrives t filter source g ∧ g.place = f.place := by
  cases h with
  | named hFile => exact ⟨_, .named (resolve_congr hSame ▸ hFile), rfl⟩
  | below hFolder hFile hAccepts =>
    exact ⟨_, .below (resolve_congr hSame ▸ hFolder) hFile hAccepts, rfl⟩

/-- The files that a source leads to, in the order of their places. -/
structure Arrivals (t : FileTree α) (filter : FileFilter) (source : Path) (fs : List FoundFile) :
    Prop where
  mem_iff : ∀ f, f ∈ fs ↔ Arrives t filter source f
  ascending : fs.Pairwise fun f g => f.place < g.place

theorem mem_taken_iff {folder : Location} (hFolder : t.resolve source = .ok (folder, .folder)) :
    f ∈ taken t filter source folder ↔ Arrives t filter source f := by
  have hFind := (FileTree.resolve_eq_ok_iff.mp hFolder).2
  simp only [taken, List.mem_map, List.mem_filter, FileTree.mem_below_iff]
  constructor
  · rintro ⟨names, ⟨⟨_, content, hFile⟩, hAccepts⟩, rfl⟩
    exact .below hFolder hFile hAccepts
  · intro h
    cases h with
    | named hFile =>
      rw [hFolder] at hFile
      cases hFile
    | @below other names content hOther hFile hAccepts =>
      rw [hFolder] at hOther
      obtain rfl : folder = other := (Prod.mk.inj (Except.ok.inj hOther)).1
      refine ⟨names, ⟨⟨?_, content, hFile⟩, hAccepts⟩, rfl⟩
      rintro rfl
      rw [List.append_nil, hFind] at hFile
      cases hFile

theorem arrivals_of_ofSource {fs : List FoundFile} (h : ofSource t filter source = .ok fs) :
    Arrivals t filter source fs := by
  unfold ofSource at h
  split at h
  next => cases h
  next place content hFile =>
    obtain rfl := Except.ok.inj h
    refine ⟨fun f => ?_, List.pairwise_singleton _ _⟩
    rw [List.mem_singleton]
    constructor
    · rintro rfl
      exact .named hFile
    · intro hArrives
      cases hArrives with
      | named hOther =>
        rw [hFile] at hOther
        rw [(Prod.mk.inj (Except.ok.inj hOther)).1]
      | below hFolder =>
        rw [hFile] at hFolder
        cases hFolder
  next folder hFolder =>
    obtain rfl := Except.ok.inj h
    refine ⟨fun f => mem_taken_iff hFolder, ?_⟩
    rw [taken, List.pairwise_map]
    have hBelow := (t.pairwise_below folder).filter fun names => filter.accepts (relativeText names)
    exact hBelow.imp fun hLt => List.append_left_lt hLt

/-! ## The files of all sources -/

/-- What is found of the files that arrive: each place once, by the path that leads there first. -/
structure FirstArrivals (arrivals found : List FoundFile) : Prop where
  mem_iff : ∀ f, f ∈ found ↔ arrivals.find? (·.place = f.place) = some f
  order : found.Pairwise fun f g =>
    arrivals.findIdx (·.place = f.place) < arrivals.findIdx (·.place = g.place)

section FirstArrivals

variable {arrivals found : List FoundFile} {g : FoundFile}

theorem firstArrivals_nil : FirstArrivals [] [] :=
  ⟨by simp, .nil⟩

namespace FirstArrivals

theorem mem (h : FirstArrivals arrivals found) (hFound : f ∈ found) : f ∈ arrivals :=
  List.mem_of_find?_eq_some ((h.mem_iff f).mp hFound)

theorem exists_mem (h : FirstArrivals arrivals found) (hArrives : f ∈ arrivals) :
    ∃ g ∈ found, g.place = f.place := by
  have hSome : (arrivals.find? (·.place = f.place)).isSome = true :=
    List.find?_isSome.mpr ⟨f, hArrives, by simp⟩
  obtain ⟨g, hg⟩ := Option.isSome_iff_exists.mp hSome
  have hPlace : g.place = f.place := by simpa using List.find?_some hg
  exact ⟨g, (h.mem_iff g).mpr (by rw [hPlace, hg]), hPlace⟩

theorem nodup (h : FirstArrivals arrivals found) : found.Pairwise fun f g => f.place ≠ g.place := by
  refine h.order.imp fun {f g} hLt hSame => ?_
  rw [hSame] at hLt
  exact Nat.lt_irrefl _ hLt

/-- A later arrival does not change where a place has been reached first. -/
theorem findIdx_concat (h : FirstArrivals arrivals found) (hg : g ∈ found) (f : FoundFile) :
    (arrivals ++ [f]).findIdx (·.place = g.place) = arrivals.findIdx (·.place = g.place) := by
  rw [List.findIdx_append, if_pos (List.findIdx_lt_length_of_exists ⟨g, h.mem hg, by simp⟩)]

theorem order_concat (h : FirstArrivals arrivals found) (f : FoundFile) : found.Pairwise fun g k =>
    (arrivals ++ [f]).findIdx (·.place = g.place) < (arrivals ++ [f]).findIdx (·.place = k.place) := by
  refine h.order.imp_of_mem fun {g k} hg hk hLt => ?_
  rwa [h.findIdx_concat hg, h.findIdx_concat hk]

theorem of_seen (h : FirstArrivals arrivals found) (hg : g ∈ found) (hPlace : g.place = f.place) :
    FirstArrivals (arrivals ++ [f]) found := by
  refine ⟨fun k => ?_, h.order_concat f⟩
  rw [h.mem_iff, List.find?_append]
  by_cases hk : f.place = k.place
  · have hFirst := (h.mem_iff g).mp hg
    rw [hPlace, hk] at hFirst
    rw [hFirst, Option.some_or]
  · rw [List.find?_singleton, if_neg (by simpa using hk), Option.or_none]

theorem of_new (h : FirstArrivals arrivals found) (hNew : ∀ g ∈ found, g.place ≠ f.place) :
    FirstArrivals (arrivals ++ [f]) (found ++ [f]) := by
  have hUnseen : ∀ g ∈ arrivals, g.place ≠ f.place := by
    intro g hg hPlace
    obtain ⟨k, hk, hSame⟩ := h.exists_mem hg
    exact hNew k hk (hSame.trans hPlace)
  refine ⟨fun g => ?_, ?_⟩
  · rw [List.mem_append, List.mem_singleton, List.find?_append, List.find?_singleton, h.mem_iff]
    by_cases hg : f.place = g.place
    · have hNone : arrivals.find? (·.place = g.place) = none :=
        List.find?_eq_none.mpr fun k hk => by simpa [← hg] using hUnseen k hk
      rw [hNone, if_pos (by simpa using hg)]
      simp [eq_comm]
    · rw [if_neg (by simpa using hg), Option.or_none, or_iff_left]
      rintro rfl
      exact hg rfl
  · rw [List.pairwise_append]
    refine ⟨h.order_concat f, List.pairwise_singleton _ _, ?_⟩
    rintro g hg k hk
    obtain rfl := List.mem_singleton.mp hk
    have hEnd : arrivals.findIdx (·.place = k.place) = arrivals.length :=
      List.findIdx_eq_length_of_false fun g hg => by simpa using hUnseen g hg
    have hLast : (arrivals ++ [k]).findIdx (·.place = k.place) = arrivals.length := by
      rw [List.findIdx_append, hEnd, if_neg (Nat.lt_irrefl _)]
      simp
    rw [h.findIdx_concat hg, hLast]
    exact List.findIdx_lt_length_of_exists ⟨g, h.mem hg, by simp⟩

theorem add (h : FirstArrivals arrivals found) (f : FoundFile) :
    FirstArrivals (arrivals ++ [f]) (Discovery.add found f) := by
  unfold Discovery.add
  split
  next hSeen =>
    obtain ⟨g, hg, hPlace⟩ := List.any_eq_true.mp hSeen
    exact h.of_seen hg (by simpa using hPlace)
  next hNew =>
    refine h.of_new fun g hg hPlace => hNew ?_
    exact List.any_eq_true.mpr ⟨g, hg, by simpa using hPlace⟩

theorem foldl_add (h : FirstArrivals arrivals found) (fs : List FoundFile) :
    FirstArrivals (arrivals ++ fs) (fs.foldl Discovery.add found) := by
  induction fs generalizing arrivals found with
  | nil => rwa [List.append_nil]
  | cons f fs ih =>
    rw [← List.singleton_append, ← List.append_assoc]
    exact ih (h.add f)

end FirstArrivals

end FirstArrivals

/-- Nothing is added for places that have been reached. -/
theorem foldl_add_eq_self {fs found : List FoundFile}
    (h : ∀ f ∈ fs, ∃ g ∈ found, g.place = f.place) : fs.foldl add found = found := by
  induction fs with
  | nil => rfl
  | cons f fs ih =>
    obtain ⟨⟨g, hg, hPlace⟩, hRest⟩ := List.forall_mem_cons.mp h
    have hAdd : add found f = found :=
      if_pos (List.any_eq_true.mpr ⟨g, hg, by simpa using hPlace⟩)
    rw [List.foldl_cons, hAdd]
    exact ih hRest

theorem collect_eq_ok {found : List FoundFile} {sources : List Path} {runs : List (List FoundFile)}
    (h : List.Forall₂ (fun source fs => ofSource t filter source = .ok fs) sources runs) :
    collect t filter found sources = .ok (runs.flatten.foldl add found) := by
  induction h generalizing found with
  | nil => rfl
  | cons hSource _ ih =>
    rw [collect, hSource, List.flatten_cons, List.foldl_append]
    exact ih

theorem exists_runs (filter : FileFilter) {sources : List Path}
    (h : ∀ source ∈ sources, t.contains source = true) :
    ∃ runs, List.Forall₂ (fun source fs => ofSource t filter source = .ok fs) sources runs := by
  induction sources with
  | nil => exact ⟨[], .nil⟩
  | cons source sources ih =>
    obtain ⟨hThere, hRest⟩ := List.forall_mem_cons.mp h
    obtain ⟨runs, hRuns⟩ := ih hRest
    rcases ofSource_cases t filter source with ⟨cause, hMissing, _⟩ | ⟨_, fs, hSource⟩
    · rw [FileTree.contains, hMissing] at hThere
      cases hThere
    · exact ⟨fs :: runs, .cons hSource hRuns⟩

theorem exists_firstMissing {sources : List Path} (h : ∃ source ∈ sources, t.contains source = false) :
    ∃ source cause, FirstMissing t sources (.io (.atPath source cause)) := by
  induction sources with
  | nil => simp at h
  | cons source sources ih =>
    rcases ofSource_cases t ⟨[], []⟩ source with ⟨cause, hMissing, _⟩ | ⟨hThere, _⟩
    · exact ⟨source, cause, (firstMissing_cons_of_error hMissing).mpr rfl⟩
    · have hRest : ∃ source ∈ sources, t.contains source = false := by
        obtain ⟨missing, hMem, hNot⟩ := h
        rcases List.mem_cons.mp hMem with rfl | hMem
        · rw [hThere] at hNot
          cases hNot
        · exact ⟨missing, hMem, hNot⟩
      obtain ⟨missing, cause, hFirst⟩ := ih hRest
      exact ⟨missing, cause, (firstMissing_cons_of_ok hThere).mpr hFirst⟩

/-! ## The list of paths -/

/-- The paths that are listed for some sources. -/
structure Lists (t : FileTree α) (filter : FileFilter) (sources paths : List Path) : Prop where
  arrived : ∀ p ∈ paths, ∃ source ∈ sources, ∃ place,
    Arrives t filter source ⟨p, place⟩ ∧ t.locate p = .ok place
  once : ∀ source ∈ sources, ∀ f, Arrives t filter source f →
    ∃! p, p ∈ paths ∧ t.locate p = .ok f.place
  distinct : t.Distinct paths
  apart : paths.Pairwise fun p q => p.same q = false
  ordered : ∃ runs found, List.Forall₂ (Arrivals t filter) sources runs ∧
    FirstArrivals runs.flatten found ∧ paths = found.map (·.path)

theorem mem_flatten_iff {sources : List Path} {runs : List (List FoundFile)}
    (h : List.Forall₂ (Arrivals t filter) sources runs) :
    f ∈ runs.flatten ↔ ∃ source ∈ sources, Arrives t filter source f := by
  induction h with
  | nil => simp
  | cons hSource _ ih => simp [ih, hSource.mem_iff]

theorem lists_of_firstArrivals (hTree : t.Regular) {sources : List Path}
    {runs : List (List FoundFile)} {found : List FoundFile}
    (hRuns : List.Forall₂ (Arrivals t filter) sources runs)
    (hFound : FirstArrivals runs.flatten found) : Lists t filter sources (found.map (·.path)) := by
  have hArrives : ∀ f ∈ found, ∃ source ∈ sources, Arrives t filter source f :=
    fun f hf => (mem_flatten_iff hRuns).mp (hFound.mem hf)
  have hLocate : ∀ f ∈ found, t.locate f.path = .ok f.place := by
    intro f hf
    obtain ⟨source, _, h⟩ := hArrives f hf
    exact h.locate hTree
  have hDistinct : t.Distinct (found.map (·.path)) := by
    rw [FileTree.Distinct, List.pairwise_map]
    refine hFound.nodup.imp_of_mem fun {f g} hf hg hNe place hPlace hSame => hNe ?_
    rw [hLocate f hf] at hPlace
    rw [hLocate g hg] at hSame
    exact Except.ok.inj (hPlace.trans hSame.symm)
  refine ⟨?_, ?_, hDistinct, ?_, ⟨runs, found, hRuns, hFound, rfl⟩⟩
  · intro p hp
    obtain ⟨f, hf, rfl⟩ := List.mem_map.mp hp
    obtain ⟨source, hSource, h⟩ := hArrives f hf
    exact ⟨source, hSource, f.place, h, hLocate f hf⟩
  · intro source hSource f h
    obtain ⟨g, hg, hPlace⟩ := hFound.exists_mem ((mem_flatten_iff hRuns).mpr ⟨source, hSource, h⟩)
    refine ⟨g.path, ⟨List.mem_map_of_mem hg, hPlace ▸ hLocate g hg⟩, ?_⟩
    rintro p ⟨hp, hThere⟩
    obtain ⟨k, hk, rfl⟩ := List.mem_map.mp hp
    rw [hDistinct.eq_of_locate hk hg hThere (hPlace ▸ hLocate g hg)]
  · rw [List.pairwise_map]
    refine hFound.nodup.imp_of_mem fun {f g} hf hg hNe => ?_
    rw [← Bool.not_eq_true]
    exact fun hSame => hNe (FileTree.locate_eq_of_same hSame (hLocate f hf) (hLocate g hg))

theorem discover_eq_ok {c : Config} {sources : List Path} {runs : List (List FoundFile)}
    (hFilter : FileFilter.ofConfig c = .ok filter)
    (hRuns : List.Forall₂ (fun source fs => ofSource t filter source = .ok fs) sources runs) :
    discover t c sources = .ok ((runs.flatten.foldl add []).map (·.path)) := by
  rw [discover, hFilter]
  simp only [bind, Except.bind, collect_eq_ok hRuns]
  rfl

/-- A source that leads where another has led adds nothing. -/
theorem discover_concat {c : Config} {sources : List Path} {q : Path}
    (hFilter : FileFilter.ofConfig c = .ok filter)
    (hThere : ∀ source ∈ sources, t.contains source = true) (hSource : source ∈ sources)
    (hSame : t.locate q = t.locate source) : discover t c (sources ++ [q]) = discover t c sources := by
  have hThere' : ∀ s ∈ [q], t.contains s = true := by
    intro s hs
    obtain rfl := List.mem_singleton.mp hs
    rw [FileTree.contains, resolve_congr hSame]
    exact hThere source hSource
  obtain ⟨runs, hRuns⟩ := exists_runs filter hThere
  obtain ⟨more, hMore⟩ := exists_runs filter hThere'
  have hReached : ∀ f ∈ more.flatten, ∃ g ∈ runs.flatten.foldl add [], g.place = f.place := by
    intro f hf
    obtain ⟨s, hs, hArrives⟩ := (mem_flatten_iff (hMore.imp fun _ _ => arrivals_of_ofSource)).mp hf
    obtain rfl := List.mem_singleton.mp hs
    obtain ⟨g, hArrives', hPlace⟩ := hArrives.exists_of_locate_eq hSame
    rw [← hPlace]
    apply (firstArrivals_nil.foldl_add runs.flatten).exists_mem
    exact (mem_flatten_iff (hRuns.imp fun _ _ => arrivals_of_ofSource)).mpr ⟨source, hSource, hArrives'⟩
  rw [discover_eq_ok hFilter (List.rel_append hRuns hMore), discover_eq_ok hFilter hRuns,
    List.flatten_append, List.foldl_append, foldl_add_eq_self hReached]

/-- Every file that a source names, and every file below a folder it names that the filter takes, is listed
once, by the path it is first reached by; a source that leads where another has led adds nothing.  A source
that is not there is an error. -/
theorem discover_lists {c : Config} (hTree : t.Regular)
    (hGlobs : Config.globFault? (c.included ++ c.excluded) = none) :
    ∃ filter, FileFilter.ofConfig c = .ok filter ∧ ∀ sources : List Path,
      ((∀ source ∈ sources, t.contains source = true) →
        ∃ paths, discover t c sources = .ok paths ∧ Lists t filter sources paths ∧
          ∀ source ∈ sources, ∀ q, t.locate q = t.locate source →
            discover t c (sources ++ [q]) = .ok paths) ∧
      ((∃ source ∈ sources, t.contains source = false) →
        ∃ source cause, FirstMissing t sources (.io (.atPath source cause)) ∧
          discover t c sources = .error (.io (.atPath source cause))) := by
  obtain ⟨filter, hFilter⟩ := FileFilter.exists_ofConfig_of_globs hGlobs
  refine ⟨filter, hFilter, fun sources => ⟨fun hThere => ?_, fun hMissing => ?_⟩⟩
  · obtain ⟨runs, hRuns⟩ := exists_runs filter hThere
    have hDiscover := discover_eq_ok hFilter hRuns
    refine ⟨_, hDiscover, lists_of_firstArrivals hTree (hRuns.imp fun _ _ => arrivals_of_ofSource)
      (firstArrivals_nil.foldl_add runs.flatten), fun source hSource q hSame => ?_⟩
    rw [discover_concat hFilter hThere hSource hSame]
    exact hDiscover
  · obtain ⟨source, cause, hFirst⟩ := exists_firstMissing hMissing
    exact ⟨source, cause, hFirst, (discover_eq_error_iff hFilter).mpr hFirst⟩

/-- A file of another kind, one further down and one that is vendored. -/
def vendored : FileTree String where
  files := OrderedMap.ofList [(["w", "note.txt"], "N"), (["w", "src", "a.php"], "A"),
    (["w", "src", "b", "c.php"], "C"), (["w", "src", "vendor", "x.php"], "X")]
  folders := [["w"]]
  here := ["w"]

/-- Overlapping sources under paths with dots, doubled slashes and a slash at the end. -/
def spelled : List Path :=
  [⟨"note.txt"⟩, ⟨"src//b"⟩, ⟨"./src/b/../"⟩, ⟨"/w/src"⟩, ⟨"src/vendor"⟩]

theorem discover_lists_vendored :
    vendored.Regular ∧ Config.globFault? (Config.standard.included ++ Config.standard.excluded) = none ∧
    (∃ filter, FileFilter.ofConfig Config.standard = .ok filter ∧ Lists vendored filter spelled
      [⟨"note.txt"⟩, ⟨"src//b/c.php"⟩, ⟨"./src/b/../a.php"⟩, ⟨"src/vendor/x.php"⟩]) ∧
    discover vendored Config.standard (spelled ++ [⟨"src/b/.."⟩]) =
      .ok [⟨"note.txt"⟩, ⟨"src//b/c.php"⟩, ⟨"./src/b/../a.php"⟩, ⟨"src/vendor/x.php"⟩] ∧
    ∃ source cause,
      discover vendored Config.standard (spelled ++ [⟨"src/d"⟩]) = .error (.io (.atPath source cause)) := by
  have hTree : vendored.Regular := ⟨by decide +kernel, by decide +kernel⟩
  have hGlobs : Config.globFault? (Config.standard.included ++ Config.standard.excluded) = none := by
    decide +kernel
  obtain ⟨filter, hFilter, hSources⟩ := discover_lists hTree hGlobs
  obtain ⟨paths, hDiscover, hLists, hRepeat⟩ := (hSources spelled).1 (by decide +kernel)
  obtain ⟨source, cause, _, hMissing⟩ := (hSources (spelled ++ [⟨"src/d"⟩])).2
    ⟨⟨"src/d"⟩, by simp, by decide +kernel⟩
  have hFound : discover vendored Config.standard spelled =
      .ok [⟨"note.txt"⟩, ⟨"src//b/c.php"⟩, ⟨"./src/b/../a.php"⟩, ⟨"src/vendor/x.php"⟩] := by
    decide +kernel
  obtain rfl := Except.ok.inj (hDiscover.symm.trans hFound)
  have hMore := hRepeat ⟨"./src/b/../"⟩ (by decide +kernel) ⟨"src/b/.."⟩ (by decide +kernel)
  exact ⟨hTree, hGlobs, ⟨filter, hFilter, hLists⟩, hMore, source, cause, hMissing⟩

end DocWiring.Discovery
