import DocWiring.Proofs.Run.Isolation
import Mathlib.Data.List.Nodup

/-! # The first class of a name

Of all classes of a name with a parent only the first one can be patched in a run.  The index keeps its
file and its line; of several classes of the name on that line, the first one is met before the others.
-/

namespace DocWiring

open Run

theorem ClassIndex.isOwner_iff {x : ClassIndex} {name : String} {path : Path} {line : Nat} :
    x.isOwner name path line = true ↔
      ∃ e, x.find? name = some e ∧ e.path.same path = true ∧ e.line = line := by
  unfold isOwner
  cases x.find? name <;> simp

namespace FileResult

variable {s : Setup} {index : ClassIndex} {file : ParsedFile} {t : Traversal} {classes : List ClassNode}
  {name : String}

theorem Ruled.isOwner {cls : ClassNode} (h : Ruled s index file cls) :
    index.isOwner cls.name file.path cls.startLine = true := by
  have hOwned := h.owned
  rw [Bool.and_eq_true] at hOwned
  exact hOwned.2

theorem ruled_of_patched {o : ClassNode × ClassOutcome} {p : Patch}
    (ho : o ∈ classOutcomes s index file t classes) (hPatched : o.2 = .patched p) :
    Ruled s index file o.1 := by
  obtain ⟨_, _, _, hMerging⟩ := exists_merging_of_mem ho (by rw [hPatched]; rfl)
  exact hMerging.toRuled

theorem exists_entry_of_patched {cls : ClassNode} {p : Patch}
    (h : (cls, .patched p) ∈ classOutcomes s index file t classes) :
    ∃ e, index.find? cls.name = some e ∧ e.path.same file.path = true ∧ e.line = cls.startLine :=
  ClassIndex.isOwner_iff.mp (ruled_of_patched h rfl).isOwner

theorem mem_names_iff {os : List (ClassNode × ClassOutcome)} :
    name ∈ (patchesOf os).map Prod.fst ↔ ∃ cls p, (cls, .patched p) ∈ os ∧ cls.name = name := by
  constructor
  · intro h
    obtain ⟨⟨_, p⟩, hMem, rfl⟩ := List.mem_map.mp h
    obtain ⟨cls, ho, hName⟩ := mem_patchesOf_iff.mp hMem
    exact ⟨cls, p, ho, hName⟩
  · rintro ⟨cls, p, ho, hName⟩
    exact List.mem_map.mpr ⟨(name, p), mem_patchesOf_iff.mpr ⟨cls, ho, hName⟩, rfl⟩

/-- No two classes of a file are patched under one name: both would own it, on the same line. -/
theorem nodup_names (t : Traversal) (classes : List ClassNode) :
    ((patchesOf (classOutcomes s index file t classes)).map Prod.fst).Nodup := by
  rw [List.Nodup, List.pairwise_map, patchesOf, List.pairwise_filterMap]
  refine (pairwise_merged t classes).imp_of_mem ?_
  rintro ⟨c, outcome⟩ ⟨d, outcome'⟩ ho ho' hApart _ hPatch _ hPatch' hSame
  obtain ⟨p, hPatched, rfl⟩ := Option.map_eq_some_iff.mp hPatch
  obtain ⟨p', hPatched', rfl⟩ := Option.map_eq_some_iff.mp hPatch'
  obtain rfl := ClassOutcome.patch?_eq_some_iff.mp hPatched
  obtain rfl := ClassOutcome.patch?_eq_some_iff.mp hPatched'
  obtain ⟨e, hFind, _, hLine⟩ := exists_entry_of_patched ho
  obtain ⟨e', hFind', _, hLine'⟩ := exists_entry_of_patched ho'
  have hName : c.name = d.name := hSame
  rw [hName, hFind'] at hFind
  obtain rfl := Option.some.inj hFind
  exact hApart rfl rfl (hLine.symm.trans hLine')

end FileResult

namespace Run

variable {s : Setup} {t : FileTree ByteArray} {paths : List Path} {files : List ParsedFile}
  {file : ParsedFile} {name : String} {e : ClassEntry}

/-- The file that owns a name is the first one that declares it. -/
theorem entryOf?_earlier_eq_none {earlier rest : List ParsedFile} {path : Path}
    (h : entryOf? name (declared (earlier ++ rest)) = some e) (hOwn : e.path.same path = true)
    (hApart : ∀ f ∈ earlier, f.path.same path = false) : entryOf? name (declared earlier) = none := by
  rw [declared_append, entryOf?_append] at h
  cases hFound : entryOf? name (declared earlier) with
  | none => rfl
  | some first =>
    rw [hFound, Option.some_or] at h
    obtain rfl := Option.some.inj h
    obtain ⟨f, hf, _, _, _, _, hPath, _⟩ := exists_class_of_entryOf? hFound
    rw [← hPath, hApart f hf] at hOwn
    cases hOwn

theorem declared_split {front back : List ClassNode} (h : file.classes = front ++ back) :
    declared [file] = declared [{ file with classes := front }] ++
      declared [{ file with classes := back }] := by
  simp [declared, h]

/-- A class that is patched is the first one of its name in its file: one before it would stand on the
same line, and would be met before. -/
theorem entryOf?_front_eq_none {index : ClassIndex} {classes : List ClassNode} {cls : ClassNode}
    {os os' : List (ClassNode × ClassOutcome)} {p : Patch} {other : Option ClassEntry}
    (hOutcomes : FileResult.classOutcomes s index file .start classes = os ++ (cls, .patched p) :: os')
    (hFind : index.find? cls.name =
      (entryOf? cls.name (declared [{ file with classes := os.map Prod.fst }])).or other) :
    entryOf? cls.name (declared [{ file with classes := os.map Prod.fst }]) = none := by
  have hPairs := @FileResult.pairwise_ruled s index file .start classes
  have hMem : (cls, .patched p) ∈ FileResult.classOutcomes s index file .start classes := by
    rw [hOutcomes]
    simp
  have hRuled := FileResult.ruled_of_patched hMem rfl
  obtain ⟨e, hEntry, _, hLine⟩ := FileResult.exists_entry_of_patched hMem
  cases hFound : entryOf? cls.name (declared [{ file with classes := os.map Prod.fst }]) with
  | none => rfl
  | some first =>
    rw [hFound, Option.some_or, hEntry] at hFind
    obtain rfl := Option.some.inj hFind
    obtain ⟨f, hf, d, hd, hName, hParent, _, hStart⟩ := exists_class_of_entryOf? hFound
    obtain rfl := List.mem_singleton.mp hf
    obtain ⟨o, ho, rfl⟩ := List.mem_map.mp hd
    have hOther : FileResult.Ruled s index file o.1 := by
      refine ⟨?_, hName ▸ hRuled.ruled⟩
      rw [hParent, Option.isSome_some, Bool.true_and, hName, hStart, hLine]
      exact hRuled.isOwner
    rw [hOutcomes] at hPairs
    have hNot := (List.pairwise_append.mp hPairs).2.2 o ho _ List.mem_cons_self hOther rfl
    exact absurd (hStart.trans hLine) hNot

/-- A class of a file that is patched is the first one of its name with a parent. -/
theorem first_of_patched {earlier later : List ParsedFile}
    (hFiles : files = earlier ++ file :: later)
    (hApart : ∀ f ∈ earlier, f.path.same file.path = false) {cls : ClassNode}
    {os os' : List (ClassNode × ClassOutcome)} {p : Patch}
    (hOutcomes : FileResult.classOutcomes s (indexOf files) file .start file.classes =
      os ++ (cls, .patched p) :: os') :
    ∀ d ∈ earlier.flatMap ParsedFile.classes ++ os.map Prod.fst, d.name = cls.name →
      d.parent = none := by
  have hMem : (cls, .patched p) ∈
      FileResult.classOutcomes s (indexOf files) file .start file.classes := by
    rw [hOutcomes]
    simp
  obtain ⟨e, hFind, hOwn, _⟩ := FileResult.exists_entry_of_patched hMem
  have hClasses : file.classes = os.map Prod.fst ++ cls :: os'.map Prod.fst := by
    have hSame := @FileResult.map_fst_classOutcomes s (indexOf files) file .start file.classes
    rw [← hSame, hOutcomes, List.map_append, List.map_cons]
  have hEarlier : entryOf? cls.name (declared earlier) = none := by
    rw [indexOf, find?_fillIndex_empty, hFiles] at hFind
    exact entryOf?_earlier_eq_none hFind hOwn hApart
  have hBefore : entryOf? cls.name (declared [{ file with classes := os.map Prod.fst }]) = none := by
    apply entryOf?_front_eq_none hOutcomes
    rw [indexOf, find?_fillIndex_empty, hFiles, declared_append, ← List.singleton_append,
      declared_append, declared_split hClasses, entryOf?_append, hEarlier, Option.none_or,
      entryOf?_append, entryOf?_append, Option.or_assoc]
  intro d hd hName
  rw [← Option.not_isSome_iff_eq_none]
  intro hParent
  rcases List.mem_append.mp hd with hd | hd
  · obtain ⟨f, hf, hd⟩ := List.mem_flatMap.mp hd
    exact entryOf?_declared_eq_none_iff.mp hEarlier f hf d hd hParent hName
  · exact entryOf?_declared_eq_none_iff.mp hBefore _ List.mem_cons_self d hd hParent hName

def finalOf (s : Setup) (t : FileTree ByteArray) (paths : List Path) (file : ParsedFile) : FileResult :=
  settled t (FileResult.resultOf s (indexOf (readyOn s t paths)) file)

theorem results_eq_map (s : Setup) (t : FileTree ByteArray) (paths : List Path) :
    (runOn s t paths).1.results = (readyOn s t paths).map (finalOf s t paths) := by
  rw [results_runOn, settledOn, planned, List.map_map]
  rfl

theorem outcomes_finalOf (s : Setup) (t : FileTree ByteArray) (paths : List Path) (file : ParsedFile) :
    (finalOf s t paths file).outcomes =
      FileResult.classOutcomes s (indexOf (readyOn s t paths)) file .start file.classes := by
  rw [finalOf, outcomes_settled]
  rfl

theorem map_fst_outcomes_finalOf (s : Setup) (t : FileTree ByteArray) (paths : List Path)
    (file : ParsedFile) : (finalOf s t paths file).outcomes.map Prod.fst = file.classes := by
  rw [outcomes_finalOf, FileResult.map_fst_classOutcomes]

/-- A class of this name is patched in the file of a change.  It is the first one of the name with a
parent among the classes of all files in their order, and its top ancestor has rules. -/
structure FirstPatched (s : Setup) (r : Run) (c : FileChange) (name : String) : Prop where
  first : ∃ earlier result later front cls p back, r.results = earlier ++ result :: later ∧
    result.change? = some c ∧ result.outcomes = front ++ (cls, .patched p) :: back ∧
    cls.name = name ∧ cls.parent.isSome = true ∧
    ∀ o ∈ earlier.flatMap FileResult.outcomes ++ front, o.1.name = name → o.1.parent = none
  ruled : ∃ top, r.index.topAncestor name = .ok top ∧
    (s.config.transforms.rulesFor? top).isSome = true

/-- The results of a run have the classes of its files, in the order of the paths. -/
theorem map_outcomes_runOn (s : Setup) (t : FileTree ByteArray) (paths : List Path) :
    (runOn s t paths).1.results.map (fun q => (q.path, q.outcomes.map Prod.fst)) =
      (readyOn s t paths).map fun file => (file.path, file.classes) := by
  rw [results_eq_map, List.map_map]
  apply List.map_congr_left
  intro file _
  rw [Function.comp_apply, map_fst_outcomes_finalOf, finalOf, path_settled]
  rfl

section Distinct

variable (hDistinct : paths.Pairwise fun p q => p.same q = false)
include hDistinct

theorem pairwise_readyOn : (readyOn s t paths).Pairwise fun f g => f.path.same g.path = false := by
  have hPaths := hDistinct.sublist (sublist_readyOn s t paths)
  rwa [List.pairwise_map] at hPaths

theorem nodup_classes : ((runOn s t paths).1.report.changes.flatMap FileChange.classes).Nodup := by
  have hFiles := pairwise_readyOn (s := s) (t := t) hDistinct
  rw [report, results_eq_map, List.filterMap_map, List.nodup_flatMap]
  constructor
  · intro c hc
    obtain ⟨file, _, hChange⟩ := List.mem_filterMap.mp hc
    rw [(of_change? hChange).2]
    exact FileResult.nodup_names _ _
  · rw [List.pairwise_filterMap]
    refine hFiles.imp ?_
    intro f g hApart c hChange d hChange' name hName hName'
    rw [(of_change? hChange).2] at hName
    rw [(of_change? hChange').2] at hName'
    obtain ⟨cls, p, hMem, rfl⟩ := FileResult.mem_names_iff.mp hName
    obtain ⟨cls', p', hMem', hSame⟩ := FileResult.mem_names_iff.mp hName'
    obtain ⟨e, hFind, hOwn, _⟩ := FileResult.exists_entry_of_patched hMem
    obtain ⟨e', hFind', hOwn', _⟩ := FileResult.exists_entry_of_patched hMem'
    -- Both files would own the name.
    rw [hSame, hFind] at hFind'
    obtain rfl := Option.some.inj hFind'
    have hParts := (Path.same_iff.mp hOwn).symm.trans (Path.same_iff.mp hOwn')
    rw [Path.same_iff.mpr hParts] at hApart
    cases hApart

theorem firstPatched {c : FileChange} (hc : c ∈ (runOn s t paths).1.report.changes)
    (hName : name ∈ c.classes) : FirstPatched s (runOn s t paths).1 c name := by
  have hFiles := pairwise_readyOn (s := s) (t := t) hDistinct
  rw [report, results_eq_map, List.filterMap_map] at hc
  obtain ⟨file, hFile, hChange⟩ := List.mem_filterMap.mp hc
  rw [(of_change? hChange).2] at hName
  obtain ⟨cls, p, hMem, rfl⟩ := FileResult.mem_names_iff.mp hName
  obtain ⟨earlier, later, hReady⟩ := List.append_of_mem hFile
  obtain ⟨front, back, hOutcomes⟩ := List.append_of_mem hMem
  have hRuled := FileResult.ruled_of_patched hMem rfl
  constructor
  · have hApart : ∀ f ∈ earlier, f.path.same file.path = false := by
      rw [hReady] at hFiles
      intro f hf
      exact (List.pairwise_append.mp hFiles).2.2 f hf file List.mem_cons_self
    refine ⟨earlier.map (finalOf s t paths), finalOf s t paths file, later.map (finalOf s t paths),
      front, cls, p, back, ?_, hChange, ?_, rfl, (Bool.and_eq_true_iff.mp hRuled.owned).1, ?_⟩
    · rw [results_eq_map, hReady, List.map_append, List.map_cons]
    · rw [outcomes_finalOf, hOutcomes]
    · intro o ho
      apply first_of_patched hReady hApart hOutcomes o.1
      rw [List.flatMap_map] at ho
      rcases List.mem_append.mp ho with ho | ho
      · obtain ⟨f, hf, ho⟩ := List.mem_flatMap.mp ho
        apply List.mem_append_left
        apply List.mem_flatMap.mpr
        refine ⟨f, hf, ?_⟩
        rw [← map_fst_outcomes_finalOf s t paths f]
        exact List.mem_map_of_mem ho
      · exact List.mem_append_right _ (List.mem_map_of_mem ho)
  · obtain ⟨top, rules, hTop, hRules⟩ := hRuled.ruled
    exact ⟨top, hTop, by rw [hRules]; rfl⟩

/-- Over distinct paths, no name of a class is changed twice, and every class that is patched is the first
one of its name. -/
theorem onTree_first : ∃ r after, onTree s t paths = .ok (r, after) ∧
    r.results.map (fun q => (q.path, q.outcomes.map Prod.fst)) =
      (readyOn s t paths).map (fun file => (file.path, file.classes)) ∧
    (r.report.changes.flatMap FileChange.classes).Nodup ∧
    ∀ c ∈ r.report.changes, ∀ name ∈ c.classes, FirstPatched s r c name :=
  ⟨_, _, onTree_eq s t paths, map_outcomes_runOn s t paths, nodup_classes hDistinct,
    fun _ hc _ hName => firstPatched hDistinct hc hName⟩

end Distinct

/-- A class that is declared twice on its line, and again in the other file, where a class extends it. -/
def twinSetup : Setup :=
  let class_ (name parent : String) : ClassNode :=
    ⟨name, some parent, 2, none, [⟨"uses", some (.list [.bare (.string "Post")])⟩]⟩
  ⟨fun p _ => .ok (if p.text = "a.php" then [class_ "A" "Shell", class_ "A" "Shell"]
    else [class_ "A" "Model", class_ "B" "A"]), .standard, false, false⟩

theorem onTree_first_twins :
    ∃ r after, onTree twinSetup familyTree [⟨"a.php"⟩, ⟨"b.php"⟩] = .ok (r, after) ∧
      r.report.changes.map (fun c => (c.path.text, c.classes)) = [("a.php", ["A"]), ("b.php", ["B"])] ∧
      r.report.failures.map (fun f => (f.path.text, f.className?)) = [("a.php", some "A")] ∧
      ∀ c ∈ r.report.changes, ∀ name ∈ c.classes, FirstPatched twinSetup r c name := by
  have hDistinct : [(⟨"a.php"⟩ : Path), ⟨"b.php"⟩].Pairwise fun p q => p.same q = false := by decide
  have hReport : (onTree twinSetup familyTree [⟨"a.php"⟩, ⟨"b.php"⟩]).map (fun r =>
      (r.1.report.changes.map (fun c => (c.path.text, c.classes)),
        r.1.report.failures.map (fun f => (f.path.text, f.className?)))) =
      .ok ([("a.php", ["A"]), ("b.php", ["B"])], [("a.php", some "A")]) := by decide +kernel
  obtain ⟨r, after, hRun, _, _, hFirst⟩ := onTree_first (s := twinSetup) (t := familyTree) hDistinct
  rw [hRun] at hReport
  obtain ⟨hChanges, hFailures⟩ := Prod.mk.inj (Except.ok.inj hReport)
  exact ⟨r, after, hRun, hChanges, hFailures, hFirst⟩

end Run

end DocWiring
