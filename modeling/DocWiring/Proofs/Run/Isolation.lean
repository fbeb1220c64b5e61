import DocWiring.Proofs.Run.Order

/-! # A file more

A file that declares none of the names that other files know leaves these alone: no chain of parents of
another file leads through its classes, and what is written to it is not written anywhere else.  A file
that cannot be read or parsed has no classes at all.
-/

namespace DocWiring

/-- The new list is the old one with members of a kind put in. -/
inductive Interspersed {α : Type} (P : α → Prop) : List α → List α → Prop where
  | nil : Interspersed P [] []
  | kept (a : α) {old new : List α} : Interspersed P old new → Interspersed P (a :: old) (a :: new)
  | added {a : α} {old new : List α} : P a → Interspersed P old new → Interspersed P old (a :: new)

namespace Interspersed

variable {α β : Type} {P : α → Prop} {Q : β → Prop} {old new old' new' : List α}

theorem refl (l : List α) : Interspersed P l l := by
  induction l with
  | nil => exact .nil
  | cons a l ih => exact .kept a ih

theorem of_forall (h : ∀ a ∈ new, P a) : Interspersed P [] new := by
  induction new with
  | nil => exact .nil
  | cons a new ih =>
    obtain ⟨ha, hNew⟩ := List.forall_mem_cons.mp h
    exact .added ha (ih hNew)

theorem append (h : Interspersed P old new) (h' : Interspersed P old' new') :
    Interspersed P (old ++ old') (new ++ new') := by
  induction h with
  | nil => exact h'
  | kept a _ ih => exact .kept a ih
  | added ha _ ih => exact .added ha ih

theorem insert (before after : List α) {a : α} (ha : P a) :
    Interspersed P (before ++ after) (before ++ a :: after) :=
  (refl before).append (.added ha (refl after))

theorem flatMap {f : α → List β} (h : Interspersed P old new) (hf : ∀ a, P a → ∀ b ∈ f a, Q b) :
    Interspersed Q (old.flatMap f) (new.flatMap f) := by
  induction h with
  | nil => exact .nil
  | kept a _ ih =>
    rw [List.flatMap_cons, List.flatMap_cons]
    exact (refl (f a)).append ih
  | @added a old new ha _ ih =>
    rw [List.flatMap_cons]
    exact (of_forall (hf a ha)).append ih

theorem filterMap {f : α → Option β} (h : Interspersed P old new)
    (hf : ∀ a, P a → ∀ b, f a = some b → Q b) :
    Interspersed Q (old.filterMap f) (new.filterMap f) := by
  rw [List.filterMap_eq_flatMap_toList, List.filterMap_eq_flatMap_toList]
  apply h.flatMap
  intro a ha b hb
  exact hf a ha b (Option.mem_toList.mp hb)

theorem filter_eq [DecidablePred P] (h : Interspersed P old new) (hOld : ∀ a ∈ old, ¬ P a) :
    new.filter (fun a => ¬ P a) = old := by
  induction h with
  | nil => rfl
  | kept a _ ih =>
    obtain ⟨ha, hRest⟩ := List.forall_mem_cons.mp hOld
    rw [List.filter_cons_of_pos (by simpa using ha), ih hRest]
  | added ha _ ih =>
    rw [List.filter_cons_of_neg (by simpa using ha)]
    exact ih hOld

end Interspersed

namespace FileTree

variable {α : Type} {t u v : FileTree α} {place : Location}

/-- The trees differ at most in the content of the file at a place. -/
structure SameOff (place : Location) (t u : FileTree α) : Prop where
  shape : SameShape t u
  found : ∀ other, other ≠ place → u.find? other = t.find? other

theorem SameOff.refl (place : Location) (t : FileTree α) : SameOff place t t :=
  ⟨.refl t, fun _ _ => rfl⟩

theorem SameOff.read_eq (h : SameOff place t u) {q : Path} (hq : t.locate q ≠ .ok place) :
    u.read q = t.read q := by
  apply read_congr (h.shape.locate_eq q)
  intro other hOther
  apply h.found
  rintro rfl
  exact hq hOther

theorem sameOff_put {c d : α} (h : t.find? place = some (.file c)) : SameOff place t (t.put place d) :=
  ⟨sameShape_put h d, fun _ hOther => find?_put_of_ne h hOther.symm⟩

theorem SameOff.put {c c' d : α} {other : Location} (h : SameOff place t u)
    (hFile : t.find? other = some (.file c)) (hFile' : u.find? other = some (.file c')) :
    SameOff place (t.put other d) (u.put other d) := by
  refine ⟨(sameShape_put hFile d).symm.trans (h.shape.trans (sameShape_put hFile' d)), ?_⟩
  intro at' hAt
  by_cases hSame : at' = other
  · rw [hSame, find?_put_self, find?_put_self]
  · rw [find?_put_of_ne hFile' (Ne.symm hSame), find?_put_of_ne hFile (Ne.symm hSame), h.found at' hAt]

end FileTree

namespace Run

open FileTree

variable {s : Setup} {t u : FileTree ByteArray} {r : FileResult} {rs rs' : List FileResult}
  {place : Location} {file extra : ParsedFile} {before after : List Path} {p : Path}

theorem sameOff_writeOne (h : SameOff place t u) (hLeads : t.LeadsToFile r.path) :
    SameOff place (writeOne t r).2 (writeOne u r).2 := by
  obtain ⟨other, c, hLocate, hFile, hAfter⟩ := writeOne_eq hLeads
  obtain ⟨other', c', hLocate', hFile', hAfter'⟩ := writeOne_eq (hLeads.of_sameShape h.shape)
  rw [h.shape.locate_eq, hLocate] at hLocate'
  obtain rfl := Except.ok.inj hLocate'
  rw [settled_of_sameShape h.shape] at hAfter'
  rw [hAfter, hAfter']
  cases (settled t r).bytes? with
  | none => exact h
  | some bytes => exact h.put hFile hFile'

theorem sameOff_writeAll (h : SameOff place t u) (hLeads : ∀ r ∈ rs, t.LeadsToFile r.path) :
    SameOff place (writeAll t rs).2 (writeAll u rs).2 := by
  induction rs generalizing t u with
  | nil => exact h
  | cons r rs ih =>
    obtain ⟨hHere, hRest⟩ := List.forall_mem_cons.mp hLeads
    rw [writeAll_cons, writeAll_cons]
    apply ih (sameOff_writeOne h hHere)
    intro q hq
    exact (hRest q hq).of_sameShape (sameShape_writeOne hHere)

theorem writeAll_append (t : FileTree ByteArray) (rs rs' : List FileResult) :
    (writeAll t (rs ++ rs')).2 = (writeAll (writeAll t rs).2 rs').2 := by
  induction rs generalizing t with
  | nil => rfl
  | cons r rs ih => rw [List.cons_append, writeAll_cons, writeAll_cons, ih]

/-- To write a file more changes nothing but this file. -/
theorem sameOff_insert (hLeads : ∀ q ∈ rs ++ r :: rs', t.LeadsToFile q.path)
    (hLocate : t.locate r.path = .ok place) :
    SameOff place (writeAll t (rs ++ rs')).2 (writeAll t (rs ++ r :: rs')).2 := by
  obtain ⟨hFront, hBack⟩ := List.forall_mem_append.mp hLeads
  obtain ⟨hHere, hBack⟩ := List.forall_mem_cons.mp hBack
  have hShape := sameShape_writeAll hFront
  rw [writeAll_append, writeAll_append, writeAll_cons]
  apply sameOff_writeAll
  · obtain ⟨other, c, hOther, hFile, hAfter⟩ := writeOne_eq (hHere.of_sameShape hShape)
    rw [hShape.locate_eq, hLocate] at hOther
    obtain rfl := Except.ok.inj hOther
    rw [hAfter]
    cases (settled (writeAll t rs).2 r).bytes? with
    | none => exact .refl _ _
    | some bytes => exact sameOff_put hFile
  · intro q hq
    exact (hBack q hq).of_sameShape hShape

theorem read_writeAll_insert (hLeads : ∀ q ∈ rs ++ r :: rs', t.LeadsToFile q.path)
    (hApart : t.locate p ≠ t.locate r.path) :
    (writeAll t (rs ++ r :: rs')).2.read p = (writeAll t (rs ++ rs')).2.read p := by
  obtain ⟨hFront, hBack⟩ := List.forall_mem_append.mp hLeads
  obtain ⟨hHere, hBack⟩ := List.forall_mem_cons.mp hBack
  obtain ⟨place, _, hPlace, _⟩ := hHere
  apply (sameOff_insert hLeads hPlace).read_eq
  rw [(sameShape_writeAll (List.forall_mem_append.mpr ⟨hFront, hBack⟩)).locate_eq, ← hPlace]
  exact hApart

/-- The other files know the names of the classes with a parent neither as names of such classes nor as
parents. -/
def Foreign (file : ParsedFile) (others : List ParsedFile) : Prop :=
  ∀ c ∈ file.classes, c.parent.isSome = true → ∀ f ∈ others, ∀ d ∈ f.classes,
    (d.parent.isSome = true → d.name ≠ c.name) ∧ d.parent ≠ some c.name

instance (file : ParsedFile) (others : List ParsedFile) : Decidable (Foreign file others) :=
  inferInstanceAs (Decidable (∀ c ∈ file.classes, c.parent.isSome = true → ∀ f ∈ others,
    ∀ d ∈ f.classes, (d.parent.isSome = true → d.name ≠ c.name) ∧ d.parent ≠ some c.name))

section Index

variable {front back : List ParsedFile}

theorem find?_indexOf_insert {name : String}
    (h : ∀ c ∈ extra.classes, c.parent.isSome = true → c.name ≠ name) :
    (indexOf (front ++ extra :: back)).find? name = (indexOf (front ++ back)).find? name := by
  have hNone : entryOf? name (declared [extra]) = none := by
    rw [entryOf?_declared_eq_none_iff]
    simpa using h
  rw [indexOf, indexOf, find?_fillIndex_empty, find?_fillIndex_empty, ← List.singleton_append,
    declared_append, declared_append, declared_append, entryOf?_append, entryOf?_append,
    entryOf?_append, hNone, Option.none_or]

/-- A file of foreign classes leaves the results of the other files as they are. -/
theorem resultOf_insert (hForeign : Foreign extra (front ++ back)) (hFile : file ∈ front ++ back) :
    FileResult.resultOf s (indexOf (front ++ extra :: back)) file =
      FileResult.resultOf s (indexOf (front ++ back)) file := by
  let known (name : String) : Prop := ∀ c ∈ extra.classes, c.parent.isSome = true → c.name ≠ name
  have hParents (name : String) (hKnown : known name) :
      ((indexOf (front ++ extra :: back)).find? name).map ClassEntry.parent =
        ((indexOf (front ++ back)).find? name).map ClassEntry.parent :=
    congrArg _ (find?_indexOf_insert hKnown)
  have hClosed (name : String) (e : ClassEntry) (_ : known name)
      (hEntry : (indexOf (front ++ back)).find? name = some e) : known e.parent := by
    rw [indexOf, find?_fillIndex_empty] at hEntry
    obtain ⟨f, hf, d, hd, _, hParent, _⟩ := exists_class_of_entryOf? hEntry
    intro c hc hSome hName
    apply (hForeign c hc hSome f hf d hd).2
    rw [hParent, hName]
  apply FileResult.resultOf_congr
  intro cls hcls hParent
  have hKnown : known cls.name := fun c hc hSome hName =>
    (hForeign c hc hSome file hFile cls hcls).1 hParent hName.symm
  exact ⟨find?_indexOf_insert hKnown,
    ClassIndex.climb_congr hParents hClosed cls.name _ hKnown _⟩

end Index

theorem of_change? {index : ClassIndex} {c : FileChange}
    (h : (settled t (FileResult.resultOf s index file)).change? = some c) :
    c.path = file.path ∧ c.classes =
      (FileResult.patchesOf (FileResult.classOutcomes s index file .start file.classes)).map
        Prod.fst := by
  rcases settled_cases t (FileResult.resultOf s index file) with hSame | ⟨_, hFailed⟩
  · rw [hSame] at h
    exact FileResult.names_resultOf s index file c h
  · rw [hFailed] at h
    cases h

theorem readyOn_insert (s : Setup) (t : FileTree ByteArray) (before after : List Path) (p : Path) :
    readyOn s t (before ++ p :: after) =
      readyOn s t before ++ (parse s (p, t.read p)).toOption.toList ++ readyOn s t after := by
  rw [readyOn_eq_filterMap, readyOn_eq_filterMap, readyOn_eq_filterMap, List.filterMap_append]
  cases hParse : (parse s (p, t.read p)).toOption with
  | none => simp [hParse]
  | some extra => simp [hParse]

theorem interspersed_readyOn (s : Setup) (t : FileTree ByteArray) (before after : List Path) (p : Path) :
    Interspersed (fun file => file.path = p) (readyOn s t (before ++ after))
      (readyOn s t (before ++ p :: after)) := by
  have hPaths : Interspersed (fun q => q = p) (before ++ after) (before ++ p :: after) :=
    .insert before after rfl
  rw [readyOn_eq_filterMap, readyOn_eq_filterMap]
  apply hPaths.filterMap
  rintro _ rfl file hFile
  exact (of_parse (Except.mem_toOption_iff.mp hFile)).1

theorem readyOn_append (s : Setup) (t : FileTree ByteArray) (before after : List Path) :
    readyOn s t (before ++ after) = readyOn s t before ++ readyOn s t after := by
  rw [readyOn_eq_filterMap, readyOn_eq_filterMap, readyOn_eq_filterMap, List.filterMap_append]

/-- If the file at a path can be read and parsed, it is none of those at some other paths, and its classes
are foreign to them. -/
def Stranger (s : Setup) (t : FileTree ByteArray) (others : List Path) (p : Path) : Prop :=
  ∀ extra ∈ (parse s (p, t.read p)).toOption,
    (∀ q ∈ others, t.locate q ≠ t.locate p) ∧ Foreign extra (readyOn s t others)

instance (s : Setup) (t : FileTree ByteArray) (others : List Path) (p : Path) :
    Decidable (Stranger s t others p) :=
  inferInstanceAs (Decidable (∀ extra ∈ (parse s (p, t.read p)).toOption,
    (∀ q ∈ others, t.locate q ≠ t.locate p) ∧ Foreign extra (readyOn s t others)))

section Insert

variable (h : Stranger s t (before ++ after) p)
include h

theorem resultOf_readyOn_insert (hFile : file ∈ readyOn s t (before ++ after)) :
    FileResult.resultOf s (indexOf (readyOn s t (before ++ p :: after))) file =
      FileResult.resultOf s (indexOf (readyOn s t (before ++ after))) file := by
  rw [readyOn_insert]
  cases hParse : parse s (p, t.read p) with
  | error e =>
    rw [readyOn_append]
    simp [Except.toOption]
  | ok extra =>
    obtain ⟨_, hForeign⟩ := h extra (Except.mem_toOption_iff.mpr hParse)
    rw [readyOn_append] at hForeign hFile ⊢
    have hSame := @resultOf_insert s file extra _ _ hForeign hFile
    simpa [Except.toOption] using hSame

/-- The results of the other files are those of the run without the file. -/
theorem planned_insert : planned s (readyOn s t (before ++ after)) =
    (readyOn s t (before ++ after)).map
      (FileResult.resultOf s (indexOf (readyOn s t (before ++ p :: after)))) := by
  apply List.map_congr_left
  intro file hFile
  exact (resultOf_readyOn_insert h hFile).symm

theorem settledOn_insert : settledOn s t (before ++ after) =
    (readyOn s t (before ++ after)).map fun file =>
      settled t (FileResult.resultOf s (indexOf (readyOn s t (before ++ p :: after))) file) := by
  rw [settledOn, planned_insert h, List.map_map]
  rfl

theorem changes_insert : Interspersed (fun c => c.path = p)
    (runOn s t (before ++ after)).1.report.changes
    (runOn s t (before ++ p :: after)).1.report.changes := by
  rw [changes_runOn, changes_runOn, settledOn_insert h, settledOn, planned, List.map_map,
    List.filterMap_map, List.filterMap_map]
  apply (interspersed_readyOn s t before after p).filterMap
  rintro file rfl c hChange
  exact (of_change? hChange).1

theorem failures_insert : Interspersed (fun f => f.path = p)
    (runOn s t (before ++ after)).1.report.failures
    (runOn s t (before ++ p :: after)).1.report.failures := by
  rw [failures_runOn, failures_runOn, settledOn_insert h, settledOn, planned, List.map_map,
    List.flatMap_map, List.flatMap_map, parsedOn, parsedOn, List.filterMap_map, List.filterMap_map]
  apply Interspersed.append
  · have hPaths : Interspersed (fun q => q = p) (before ++ after) (before ++ p :: after) :=
      .insert before after rfl
    apply hPaths.filterMap
    rintro _ rfl f hFailure
    obtain ⟨e, _, rfl⟩ := parseFailure?_eq_some_iff.mp hFailure
    rfl
  · apply (interspersed_readyOn s t before after p).flatMap
    rintro file rfl f hFailure
    rw [FileResult.path_of_mem_failures hFailure]
    exact path_settled t _

theorem read_insert {q : Path} (hq : q ∈ before ++ after) :
    (runOn s t (before ++ p :: after)).2.read q = (runOn s t (before ++ after)).2.read q := by
  have hLeads : ∀ r ∈ planned s (readyOn s t (before ++ p :: after)), t.LeadsToFile r.path :=
    fun _ => leadsToFile_of_mem_planned
  unfold runOn
  dsimp only
  rw [planned_insert h]
  unfold planned at hLeads ⊢
  generalize indexOf (readyOn s t (before ++ p :: after)) = index at hLeads ⊢
  rw [readyOn_insert] at hLeads ⊢
  rw [readyOn_append]
  cases hParse : parse s (p, t.read p) with
  | error e => simp [Except.toOption]
  | ok extra =>
    obtain ⟨hApart, _⟩ := h extra (Except.mem_toOption_iff.mpr hParse)
    obtain ⟨rfl, _⟩ := of_parse hParse
    simp only [hParse, Except.toOption, Option.toList_some, List.append_assoc, List.map_append,
      List.singleton_append, List.map_cons] at hLeads ⊢
    exact read_writeAll_insert hLeads (hApart q hq)

end Insert

theorem path_of_mem_changes {paths : List Path} {c : FileChange}
    (h : c ∈ (runOn s t paths).1.report.changes) : c.path ∈ paths := by
  rw [changes_runOn, settledOn, planned, List.map_map, List.filterMap_map] at h
  obtain ⟨file, hFile, hChange⟩ := List.mem_filterMap.mp h
  rw [(of_change? hChange).1]
  exact (mem_readyOn_iff.mp hFile).1

theorem path_of_mem_failures {paths : List Path} {f : Failure}
    (h : f ∈ (runOn s t paths).1.report.failures) : f.path ∈ paths := by
  rw [failures_runOn] at h
  rcases List.mem_append.mp h with h | h
  · obtain ⟨parsed, hParsed, hFailure⟩ := List.mem_filterMap.mp h
    obtain ⟨q, hq, rfl⟩ := List.mem_map.mp hParsed
    obtain ⟨e, _, rfl⟩ := parseFailure?_eq_some_iff.mp hFailure
    exact hq
  · obtain ⟨r, hr, hFailure⟩ := List.mem_flatMap.mp h
    obtain ⟨q, hq, rfl⟩ := List.mem_map.mp hr
    obtain ⟨file, hFile, rfl⟩ := List.mem_map.mp hq
    rw [FileResult.path_of_mem_failures hFailure, path_settled]
    exact (mem_readyOn_iff.mp hFile).1

/-- A path more, to a file that cannot be read or parsed or to one whose classes are foreign, adds changes
and failures of its own to the report, and the other files end up as they do without it. -/
theorem onTree_insert (h : Stranger s t (before ++ after) p) :
    ∃ r tree r' tree', onTree s t (before ++ after) = .ok (r, tree) ∧
      onTree s t (before ++ p :: after) = .ok (r', tree') ∧
      Interspersed (fun c => c.path = p) r.report.changes r'.report.changes ∧
      Interspersed (fun f => f.path = p) r.report.failures r'.report.failures ∧
      (p ∉ before ++ after →
        r'.report.changes.filter (fun c => ¬ c.path = p) = r.report.changes ∧
          r'.report.failures.filter (fun f => ¬ f.path = p) = r.report.failures) ∧
      ∀ q ∈ before ++ after, tree'.read q = tree.read q := by
  have hChanges := changes_insert h
  have hFailures := failures_insert h
  refine ⟨_, _, _, _, onTree_eq s t _, onTree_eq s t _, hChanges, hFailures, ?_,
    fun q hq => read_insert h hq⟩
  intro hNew
  constructor
  · apply hChanges.filter_eq
    rintro c hc rfl
    exact hNew (path_of_mem_changes hc)
  · apply hFailures.filter_eq
    rintro f hf rfl
    exact hNew (path_of_mem_failures hf)

/-- The second file is foreign to the first one, whose class its own class extends, and the third one
is missing. -/
theorem onTree_insert_familyTree :
    ∃ r tree r' tree', onTree familySetup familyTree [⟨"a.php"⟩, ⟨"c.php"⟩] = .ok (r, tree) ∧
      onTree familySetup familyTree [⟨"a.php"⟩, ⟨"b.php"⟩, ⟨"c.php"⟩] = .ok (r', tree') ∧
      r.report.changes.map FileChange.path = [⟨"a.php"⟩] ∧
      r'.report.changes.map FileChange.path = [⟨"a.php"⟩, ⟨"b.php"⟩] ∧
      r'.report.changes.filter (fun c => ¬ c.path = ⟨"b.php"⟩) = r.report.changes ∧
      r'.report.failures.filter (fun f => ¬ f.path = ⟨"b.php"⟩) = r.report.failures ∧
      tree'.read ⟨"a.php"⟩ = tree.read ⟨"a.php"⟩ := by
  have hStranger : Stranger familySetup familyTree ([⟨"a.php"⟩] ++ [⟨"c.php"⟩]) ⟨"b.php"⟩ := by
    decide +kernel
  have hOne : (onTree familySetup familyTree [⟨"a.php"⟩, ⟨"c.php"⟩]).map
      (fun r => r.1.report.changes.map FileChange.path) = .ok [⟨"a.php"⟩] := by decide +kernel
  have hTwo : (onTree familySetup familyTree [⟨"a.php"⟩, ⟨"b.php"⟩, ⟨"c.php"⟩]).map
      (fun r => r.1.report.changes.map FileChange.path) = .ok [⟨"a.php"⟩, ⟨"b.php"⟩] := by
    decide +kernel
  obtain ⟨r, tree, r', tree', hRun, hRun', _, _, hOthers, hRead⟩ := onTree_insert hStranger
  obtain ⟨hChanges, hFailures⟩ := hOthers (by decide)
  rw [List.singleton_append] at hRun hRun'
  rw [hRun] at hOne
  rw [hRun'] at hTwo
  exact ⟨r, tree, r', tree', hRun, hRun', Except.ok.inj hOne, Except.ok.inj hTwo, hChanges, hFailures,
    hRead _ (by simp)⟩

end Run

end DocWiring
