import DocWiring.Proofs.Run.Index
import DocWiring.Proofs.Run.Total

/-! # The order of the files

Files meet each other in a run only through the class index, in which the first class of a name counts.
If no two files declare a class of the same name, the order of the files does not matter: the index
finds the same classes, and every file gets the same result.
-/

namespace DocWiring

namespace ClassIndex

variable {x y : ClassIndex}

theorem sameParents_of_find?_eq (h : ∀ name, y.find? name = x.find? name) : SameParents x y :=
  fun name => congrArg _ (h name)

theorem isOwner_congr {name : String} (h : y.find? name = x.find? name) (path : Path) (line : Nat) :
    y.isOwner name path line = x.isOwner name path line := by
  rw [isOwner, isOwner, h]

theorem size_eq_of_find?_eq (h : ∀ name, y.find? name = x.find? name) : y.size = x.size := by
  have hMem (name : String) : name ∈ y.entries.keys ↔ name ∈ x.entries.keys := by
    rw [← OrderedMap.isSome_find?_iff, ← OrderedMap.isSome_find?_iff]
    exact iff_of_eq (congrArg (fun e => Option.isSome e = true) (h name))
  have hPerm : y.entries.keys.Perm x.entries.keys :=
    (List.perm_ext_iff_of_nodup y.entries.nodup x.entries.nodup).mpr hMem
  simpa [size, OrderedMap.size, OrderedMap.keys] using hPerm.length_eq

end ClassIndex

namespace FileResult

variable {s : Setup} {x y : ClassIndex} {file : ParsedFile}

theorem classStep_congr {t : Traversal} {cls : ClassNode}
    (hOwner : y.isOwner cls.name file.path cls.startLine = x.isOwner cls.name file.path cls.startLine)
    (hTop : y.topAncestor cls.name = x.topAncestor cls.name) :
    classStep s y file t cls = classStep s x file t cls := by
  rw [classStep, classStep, hOwner, hTop]

theorem classStep_of_parentless {t : Traversal} {cls : ClassNode} (h : cls.parent = none) :
    classStep s x file t cls = (.passedOver, t) := by
  rw [classStep, h]
  rfl

/-- The result of a file depends only on what the index says of its classes with a parent. -/
theorem resultOf_congr (h : ∀ cls ∈ file.classes, cls.parent.isSome = true →
    y.find? cls.name = x.find? cls.name ∧ y.topAncestor cls.name = x.topAncestor cls.name) :
    resultOf s y file = resultOf s x file := by
  have hOutcomes (t : Traversal) (classes : List ClassNode) (hSub : classes ⊆ file.classes) :
      classOutcomes s y file t classes = classOutcomes s x file t classes := by
    induction classes generalizing t with
    | nil => rfl
    | cons cls rest ih =>
      obtain ⟨hMem, hRest⟩ := List.cons_subset.mp hSub
      have hStep : classStep s y file t cls = classStep s x file t cls := by
        cases hParent : cls.parent with
        | none => rw [classStep_of_parentless hParent, classStep_of_parentless hParent]
        | some parent =>
          obtain ⟨hFind, hTop⟩ := h cls hMem (by rw [hParent]; rfl)
          exact classStep_congr (ClassIndex.isOwner_congr hFind _ _) hTop
      rw [classOutcomes_cons, classOutcomes_cons, hStep, ih _ hRest]
  rw [resultOf, resultOf, hOutcomes _ _ (List.Subset.refl _)]

end FileResult

section Keys

variable {α β κ : Type} [DecidableEq κ] {f : α → List β} {k : α → κ} {key : β → κ} {l l' : List α}

theorem filter_flatMap_of_key (h : ∀ a ∈ l, ∀ b ∈ f a, key b = k a) (x : κ) :
    (l.flatMap f).filter (fun b => key b = x) = (l.filter fun a => k a = x).flatMap f := by
  induction l with
  | nil => rfl
  | cons a l ih =>
    obtain ⟨hHead, hTail⟩ := List.forall_mem_cons.mp h
    rw [List.flatMap_cons, List.filter_append, ih hTail]
    by_cases hKey : k a = x
    · have hAll : (f a).filter (fun b => key b = x) = f a :=
        List.filter_eq_self.mpr fun b hb => by simp [hHead b hb, hKey]
      rw [List.filter_cons_of_pos (by simpa using hKey), hAll, List.flatMap_cons]
    · have hNone : (f a).filter (fun b => key b = x) = [] :=
        List.filter_eq_nil_iff.mpr fun b hb => by simp [hHead b hb, hKey]
      rw [List.filter_cons_of_neg (by simpa using hKey), hNone, List.nil_append]

theorem eq_of_perm_of_forall_eq (hPerm : l.Perm l') (h : ∀ a ∈ l, ∀ b ∈ l, a = b) : l' = l := by
  cases l with
  | nil => exact hPerm.symm.eq_nil
  | cons a l =>
    have hAll : a :: l = List.replicate (l.length + 1) a :=
      List.eq_replicate_iff.mpr ⟨rfl, fun b hb => h b hb a List.mem_cons_self⟩
    rw [hAll] at hPerm ⊢
    exact List.perm_replicate.mp hPerm.symm

/-- What comes of the members with one key does not change when the list is put in another order. -/
theorem filter_flatMap_of_perm (hPerm : l.Perm l') (h : ∀ a ∈ l, ∀ b ∈ f a, key b = k a)
    (hOne : ∀ a ∈ l, ∀ b ∈ l, k a = k b → a = b) (x : κ) :
    (l'.flatMap f).filter (fun b => key b = x) = (l.flatMap f).filter (fun b => key b = x) := by
  rw [filter_flatMap_of_key h, filter_flatMap_of_key fun a ha => h a (hPerm.mem_iff.mpr ha)]
  congr 1
  refine eq_of_perm_of_forall_eq (hPerm.filter _) fun a ha b hb => ?_
  obtain ⟨ha, hKey⟩ := List.mem_filter.mp ha
  obtain ⟨hb, hKey'⟩ := List.mem_filter.mp hb
  exact hOne a ha b hb ((of_decide_eq_true hKey).trans (of_decide_eq_true hKey').symm)

end Keys

namespace Run

variable {s : Setup} {t : FileTree ByteArray} {paths paths' : List Path}

/-- No class with a parent is declared in two different files. -/
def Unclashing (s : Setup) (t : FileTree ByteArray) (paths : List Path) : Prop :=
  ∀ f ∈ readyOn s t paths, ∀ g ∈ readyOn s t paths, ∀ c ∈ f.classes, ∀ d ∈ g.classes,
    c.parent.isSome = true → d.parent.isSome = true → c.name = d.name → f.path = g.path

instance (s : Setup) (t : FileTree ByteArray) (paths : List Path) : Decidable (Unclashing s t paths) :=
  inferInstanceAs (Decidable (∀ f ∈ readyOn s t paths, ∀ g ∈ readyOn s t paths, ∀ c ∈ f.classes,
    ∀ d ∈ g.classes, c.parent.isSome = true → d.parent.isSome = true → c.name = d.name →
      f.path = g.path))

theorem eq_of_path_eq {f g : ParsedFile} (hf : f ∈ readyOn s t paths) (hg : g ∈ readyOn s t paths)
    (h : f.path = g.path) : f = g := by
  have hParse := (mem_readyOn_iff.mp hf).2
  rw [h, (mem_readyOn_iff.mp hg).2] at hParse
  exact (Except.ok.inj hParse).symm

theorem readyOn_perm (hPerm : paths.Perm paths') : (readyOn s t paths).Perm (readyOn s t paths') := by
  rw [readyOn_eq_filterMap, readyOn_eq_filterMap]
  exact hPerm.filterMap _

/-- If no name is declared in two files, a name has the entry that its file gives it. -/
theorem entryOf?_declared_eq_some_iff {files : List ParsedFile}
    (hNames : ∀ f ∈ files, ∀ g ∈ files, ∀ c ∈ f.classes, ∀ d ∈ g.classes,
      c.parent.isSome = true → d.parent.isSome = true → c.name = d.name → f = g)
    {name : String} {e : ClassEntry} : entryOf? name (declared files) = some e ↔
      ∃ f ∈ files, entryOf? name (declared [f]) = some e := by
  induction files with
  | nil => simp [declared, entryOf?]
  | cons f files ih =>
    have hTail := ih fun g hg k hk => hNames g (List.mem_cons_of_mem f hg) k (List.mem_cons_of_mem f hk)
    rw [← List.singleton_append, declared_append, entryOf?_append]
    cases hHead : entryOf? name (declared [f]) with
    | none => simp [hHead, hTail]
    | some first =>
      rw [Option.some_or]
      constructor
      · rintro ⟨⟩
        exact ⟨f, List.mem_cons_self, hHead⟩
      · rintro ⟨g, hg, hEntry⟩
        -- Both files declare the name, so that they are the same.
        obtain ⟨f', hf', c, hc, hName, hParent, _⟩ := exists_class_of_entryOf? hHead
        obtain ⟨g', hg', d, hd, hName', hParent', _⟩ := exists_class_of_entryOf? hEntry
        obtain rfl := List.mem_singleton.mp hf'
        obtain rfl := List.mem_singleton.mp hg'
        have hSame : f' = g' := hNames f' List.mem_cons_self g' hg c hc d hd (by rw [hParent]; rfl)
          (by rw [hParent']; rfl) (hName.trans hName'.symm)
        rw [← hHead, hSame, hEntry]

/-- The index finds the same in whatever order the files are. -/
theorem find?_indexOf_perm (hPerm : paths.Perm paths') (hNames : Unclashing s t paths) (name : String) :
    (indexOf (readyOn s t paths')).find? name = (indexOf (readyOn s t paths)).find? name := by
  have hReady := readyOn_perm (s := s) (t := t) hPerm
  have hSame : ∀ f ∈ readyOn s t paths, ∀ g ∈ readyOn s t paths, ∀ c ∈ f.classes, ∀ d ∈ g.classes,
      c.parent.isSome = true → d.parent.isSome = true → c.name = d.name → f = g :=
    fun f hf g hg c hc d hd hParent hParent' hName =>
      eq_of_path_eq hf hg (hNames f hf g hg c hc d hd hParent hParent' hName)
  rw [indexOf, indexOf, find?_fillIndex_empty, find?_fillIndex_empty]
  apply Option.ext
  intro e
  rw [entryOf?_declared_eq_some_iff hSame, entryOf?_declared_eq_some_iff]
  · exact exists_congr fun f => and_congr_left' hReady.mem_iff.symm
  · intro f hf g hg
    exact hSame f (hReady.mem_iff.mpr hf) g (hReady.mem_iff.mpr hg)

theorem planned_perm (hPerm : paths.Perm paths') (hNames : Unclashing s t paths) :
    (planned s (readyOn s t paths)).Perm (planned s (readyOn s t paths')) := by
  have hFind := find?_indexOf_perm hPerm hNames
  have hTop := (ClassIndex.sameParents_of_find?_eq hFind).topAncestor_eq
  have hResult : FileResult.resultOf s (indexOf (readyOn s t paths')) =
      FileResult.resultOf s (indexOf (readyOn s t paths)) :=
    funext fun _ => FileResult.resultOf_congr fun cls _ _ => ⟨hFind cls.name, congrFun hTop cls.name⟩
  rw [planned, planned, hResult]
  exact (readyOn_perm hPerm).map _

theorem changes_perm (hPerm : paths.Perm paths') (hNames : Unclashing s t paths) :
    (runOn s t paths).1.report.changes.Perm (runOn s t paths').1.report.changes := by
  rw [changes_runOn, changes_runOn]
  exact ((planned_perm hPerm hNames).map _).filterMap _

theorem failures_perm (hPerm : paths.Perm paths') (hNames : Unclashing s t paths) :
    (runOn s t paths).1.report.failures.Perm (runOn s t paths').1.report.failures := by
  rw [failures_runOn, failures_runOn]
  exact ((hPerm.map _).filterMap _).append (((planned_perm hPerm hNames).map _).flatMap_right _)

theorem filter_failures_perm (hPerm : paths.Perm paths') (hNames : Unclashing s t paths) (p : Path) :
    (runOn s t paths').1.report.failures.filter (·.path = p) =
      (runOn s t paths).1.report.failures.filter (·.path = p) := by
  rw [failures_runOn, failures_runOn, List.filter_append, List.filter_append]
  congr 1
  · rw [List.filterMap_eq_flatMap_toList, List.filterMap_eq_flatMap_toList]
    refine filter_flatMap_of_perm (k := Prod.fst) (hPerm.map _) ?_ ?_ p
    · intro parsed _ f hf
      obtain ⟨e, _, rfl⟩ := parseFailure?_eq_some_iff.mp (Option.mem_toList.mp hf)
      rfl
    · intro a ha b hb hSame
      obtain ⟨q, _, rfl⟩ := List.mem_map.mp ha
      obtain ⟨q', _, rfl⟩ := List.mem_map.mp hb
      obtain rfl : q = q' := hSame
      rfl
  · refine filter_flatMap_of_perm (k := FileResult.path) ((planned_perm hPerm hNames).map _)
      (fun r _ f hf => FileResult.path_of_mem_failures hf) ?_ p
    intro a ha b hb hSame
    obtain ⟨q, hq, rfl⟩ := List.mem_map.mp ha
    obtain ⟨q', hq', rfl⟩ := List.mem_map.mp hb
    obtain ⟨f, hf, rfl⟩ := List.mem_map.mp hq
    obtain ⟨g, hg, rfl⟩ := List.mem_map.mp hq'
    rw [path_settled, path_settled] at hSame
    rw [eq_of_path_eq hf hg hSame]

/-- Without clashes of names, runs over the same files in another order give the same results and leave
the same tree. -/
theorem onTree_perm (hPerm : paths.Perm paths') (hDistinct : t.Distinct paths)
    (hNames : Unclashing s t paths) :
    ∃ r r' after, onTree s t paths = .ok (r, after) ∧ onTree s t paths' = .ok (r', after) ∧
      r'.report.classesIndexed = r.report.classesIndexed ∧
      r.report.changes.Perm r'.report.changes ∧ r.report.failures.Perm r'.report.failures ∧
      ∀ p, r'.report.failures.filter (·.path = p) = r.report.failures.filter (·.path = p) := by
  have hAfter : (runOn s t paths').2 = (runOn s t paths).2 :=
    writeAll_perm (fun _ => leadsToFile_of_mem_planned) (distinct_planned hDistinct)
      (planned_perm hPerm hNames)
  refine ⟨(runOn s t paths).1, (runOn s t paths').1, (runOn s t paths).2, onTree_eq s t paths, ?_,
    ClassIndex.size_eq_of_find?_eq (find?_indexOf_perm hPerm hNames), changes_perm hPerm hNames,
    failures_perm hPerm hNames, ?_⟩
  · rw [onTree_eq]
    exact congrArg Except.ok (Prod.ext rfl hAfter)
  · exact filter_failures_perm hPerm hNames

/-- One shell, and another class that extends it. -/
def familySetup : Setup :=
  let class_ (name parent : String) : ClassNode :=
    ⟨name, some parent, 2, none, [⟨"uses", some (.list [.bare (.string "Post")])⟩]⟩
  ⟨fun p _ => .ok [if p.text = "a.php" then class_ "A" "Shell" else class_ "B" "A"], .standard, false,
    false⟩

def familyTree : FileTree ByteArray :=
  ⟨⟨[(["a.php"], "<?php\nclass A {}\n".toByteArray), (["b.php"], "<?php\nclass B {}\n".toByteArray)],
    by decide⟩, [[]], []⟩

theorem onTree_perm_familyTree :
    ∃ r r' after, onTree familySetup familyTree [⟨"a.php"⟩, ⟨"b.php"⟩] = .ok (r, after) ∧
      onTree familySetup familyTree [⟨"b.php"⟩, ⟨"a.php"⟩] = .ok (r', after) ∧
      r'.report.classesIndexed = r.report.classesIndexed ∧
      r.report.changes.Perm r'.report.changes ∧ r.report.changes.length = 2 := by
  have hPerm : [(⟨"a.php"⟩ : Path), ⟨"b.php"⟩].Perm [⟨"b.php"⟩, ⟨"a.php"⟩] := .swap _ _ _
  have hTwo : (onTree familySetup familyTree [⟨"a.php"⟩, ⟨"b.php"⟩]).map
      (fun r => r.1.report.changes.length) = .ok 2 := by decide +kernel
  obtain ⟨r, r', after, hRun, hRun', hIndexed, hChanges, _⟩ :=
    onTree_perm (s := familySetup) (t := familyTree) hPerm (by decide +kernel) (by decide +kernel)
  rw [hRun] at hTwo
  exact ⟨r, r', after, hRun, hRun', hIndexed, hChanges, Except.ok.inj hTwo⟩

end Run

end DocWiring
