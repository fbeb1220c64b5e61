import DocWiring.Proofs.Run.Rewrite

/-! # The class index of the same classes

The first class of a name is in the index.  Files that declare the same classes give indexes in which
the same classes own their names, and every name has the same top ancestor.
-/

namespace DocWiring

namespace ClassIndex

variable {x y : ClassIndex}

def SameParents (x y : ClassIndex) : Prop :=
  ∀ name, (y.find? name).map ClassEntry.parent = (x.find? name).map ClassEntry.parent

/-- A chain that stays among some names is climbed alike in two indexes that give these names the same
parents. -/
theorem climb_congr {known : String → Prop}
    (hParents : ∀ n, known n → (y.find? n).map ClassEntry.parent = (x.find? n).map ClassEntry.parent)
    (hClosed : ∀ n e, known n → x.find? n = some e → known e.parent) (name : String) (steps : Nat)
    {current : String} (hKnown : known current) (chain : List String) :
    y.climb name steps current chain = x.climb name steps current chain := by
  induction steps generalizing current chain with
  | zero => rfl
  | succ steps ih =>
    have hParent := hParents current hKnown
    unfold climb
    cases hOld : x.find? current with
    | none =>
      rw [hOld] at hParent
      rw [Option.map_eq_none_iff.mp hParent]
    | some e =>
      rw [hOld] at hParent
      obtain ⟨e', he', hSame⟩ := Option.map_eq_some_iff.mp hParent
      rw [he']
      dsimp only
      rw [hSame]
      split
      · rfl
      · exact ih (hClosed current e hKnown hOld) _

theorem SameParents.topAncestor_eq (h : SameParents x y) : y.topAncestor = x.topAncestor := by
  funext name
  exact @climb_congr x y (fun _ => True) (fun n _ => h n) (fun _ _ _ _ => trivial) name _ name trivial _

/-- A call is answered with the entry that takes its name. -/
theorem register_fst (x : ClassIndex) (name : String) (entry : ClassEntry) :
    (x.register name entry).1 = x.find? name := by
  unfold register
  cases x.find? name <;> rfl

theorem find?_register (x : ClassIndex) (name : String) (entry : ClassEntry) (other : String) :
    (x.register name entry).2.find? other =
      (x.find? other).or (if name = other then some entry else none) := by
  have hInsert : (⟨x.entries.insert name entry⟩ : ClassIndex).find? other =
      if name = other then some entry else x.find? other := OrderedMap.find?_insert _ _ _ _
  unfold register
  by_cases hSame : name = other
  · subst hSame
    cases hTaken : x.find? name <;> simp [hTaken, hInsert]
  · cases x.find? name <;> simp [hSame, hInsert]

end ClassIndex

namespace Run

/-- The first entry of a name among those that come into an index. -/
def entryOf? (name : String) (es : List (String × ClassEntry)) : Option ClassEntry :=
  (es.find? fun e => e.1 = name).map Prod.snd

theorem entryOf?_cons (name : String) (e : String × ClassEntry) (es : List (String × ClassEntry)) :
    entryOf? name (e :: es) = (if e.1 = name then some e.2 else none).or (entryOf? name es) := by
  rw [entryOf?, List.find?_cons]
  by_cases hSame : e.1 = name <;> simp [hSame, entryOf?]

theorem fillIndex_cons_fst (x : ClassIndex) (e : String × ClassEntry)
    (es : List (String × ClassEntry)) :
    (fillIndex x (e :: es)).1 = (fillIndex (x.register e.1 e.2).2 es).1 := by
  obtain ⟨name, entry⟩ := e
  rw [fillIndex]
  obtain ⟨taken, next⟩ := x.register name entry
  cases taken <;> rfl

theorem find?_fillIndex (x : ClassIndex) (es : List (String × ClassEntry)) (name : String) :
    (fillIndex x es).1.find? name = (x.find? name).or (entryOf? name es) := by
  induction es generalizing x with
  | nil => simp [fillIndex, entryOf?]
  | cons e es ih =>
    rw [fillIndex_cons_fst, ih, ClassIndex.find?_register, entryOf?_cons, Option.or_assoc]

theorem find?_fillIndex_empty (es : List (String × ClassEntry)) (name : String) :
    (fillIndex .empty es).1.find? name = entryOf? name es := by
  rw [find?_fillIndex]
  rfl

theorem entryOf?_append (name : String) (es es' : List (String × ClassEntry)) :
    entryOf? name (es ++ es') = (entryOf? name es).or (entryOf? name es') := by
  rw [entryOf?, List.find?_append, entryOf?, entryOf?]
  cases es.find? fun e => e.1 = name <;> rfl

theorem mem_of_entryOf? {name : String} {es : List (String × ClassEntry)} {e : ClassEntry}
    (h : entryOf? name es = some e) : (name, e) ∈ es := by
  obtain ⟨d, hFound, rfl⟩ := Option.map_eq_some_iff.mp h
  have hName : d.1 = name := by simpa using List.find?_some hFound
  rw [← hName]
  exact List.mem_of_find?_eq_some hFound

theorem declared_append (files files' : List ParsedFile) :
    declared (files ++ files') = declared files ++ declared files' :=
  List.flatMap_append

/-- Every entry is that of a class in one of the files. -/
theorem exists_class_of_entryOf? {files : List ParsedFile} {name : String} {e : ClassEntry}
    (h : entryOf? name (declared files) = some e) :
    ∃ f ∈ files, ∃ c ∈ f.classes, c.name = name ∧ c.parent = some e.parent ∧ f.path = e.path ∧
      c.startLine = e.line := by
  obtain ⟨f, hf, hMem⟩ := List.mem_flatMap.mp (mem_of_entryOf? h)
  obtain ⟨c, hc, hEntry⟩ := List.mem_filterMap.mp hMem
  obtain ⟨parent, hParent, hSame⟩ := Option.map_eq_some_iff.mp hEntry
  obtain ⟨rfl, rfl⟩ := Prod.mk.inj hSame
  exact ⟨f, hf, c, hc, rfl, hParent, rfl, rfl⟩

theorem entryOf?_declared_eq_none_iff {files : List ParsedFile} {name : String} :
    entryOf? name (declared files) = none ↔
      ∀ f ∈ files, ∀ c ∈ f.classes, c.parent.isSome = true → c.name ≠ name := by
  constructor
  · intro h f hf c hc hParent hName
    obtain ⟨parent, hParent⟩ := Option.isSome_iff_exists.mp hParent
    have hMem : (c.name, (⟨parent, f.path, c.startLine⟩ : ClassEntry)) ∈ declared files :=
      List.mem_flatMap.mpr ⟨f, hf, List.mem_filterMap.mpr ⟨c, hc, by rw [hParent]; rfl⟩⟩
    have hNot := List.find?_eq_none.mp (Option.map_eq_none_iff.mp h) _ hMem
    exact hNot (decide_eq_true hName)
  · intro h
    cases hEntry : entryOf? name (declared files) with
    | none => rfl
    | some e =>
      obtain ⟨f, hf, c, hc, hName, hParent, _⟩ := exists_class_of_entryOf? hEntry
      exact absurd hName (h f hf c hc (by rw [hParent]; rfl))

theorem rel_entryOf? {R : ClassEntry → ClassEntry → Prop} {es es' : List (String × ClassEntry)}
    (h : List.Forall₂ (fun e e' => e'.1 = e.1 ∧ R e.2 e'.2) es es') (name : String) :
    Option.Rel R (entryOf? name es) (entryOf? name es') := by
  induction h with
  | nil => exact .none
  | @cons e e' es es' hHead _ ih =>
    unfold entryOf?
    by_cases hSame : e.1 = name
    · rw [List.find?_cons_of_pos (by simpa using hSame),
        List.find?_cons_of_pos (by simpa [hHead.1] using hSame)]
      exact .some hHead.2
    · rw [List.find?_cons_of_neg (by simpa using hSame),
        List.find?_cons_of_neg (by simpa [hHead.1] using hSame)]
      exact ih

/-- Two files with the same classes, in both of which the same classes share a line. -/
structure Matched (file file' : ParsedFile) : Prop where
  path : file'.path = file.path
  alike : List.Forall₂ ClassNode.Alike file.classes file'.classes
  aligned : ∀ c ∈ file.classes.zip file'.classes, ∀ d ∈ file.classes.zip file'.classes,
    (c.2.startLine = d.2.startLine ↔ c.1.startLine = d.1.startLine)

/-- Two entries of the same class of a file. -/
structure SameEntry (files files' : List ParsedFile) (e e' : ClassEntry) : Prop where
  parent : e'.parent = e.parent
  path : e'.path = e.path
  line : ∃ f ∈ files.zip files', ∃ c ∈ f.1.classes.zip f.2.classes,
    e.path = f.1.path ∧ e.line = c.1.startLine ∧ e'.line = c.2.startLine

variable {files files' : List ParsedFile}

theorem forall₂_declared (h : List.Forall₂ Matched files files') :
    List.Forall₂ (fun e e' => e'.1 = e.1 ∧ SameEntry files files' e.2 e'.2) (declared files)
      (declared files') := by
  have hZip : List.Forall₂ (fun f f' => Matched f f' ∧ (f, f') ∈ files.zip files') files files' :=
    List.forall₂_iff_zip.mpr ⟨h.length_eq, fun hMem => ⟨(List.forall₂_iff_zip.mp h).2 hMem, hMem⟩⟩
  refine List.rel_flatMap hZip fun f f' hFile => ?_
  obtain ⟨hMatched, hMem⟩ := hFile
  have hClasses : List.Forall₂ (fun c c' => ClassNode.Alike c c' ∧ (c, c') ∈ f.classes.zip f'.classes)
      f.classes f'.classes := List.forall₂_iff_zip.mpr ⟨hMatched.alike.length_eq, fun hClass =>
    ⟨(List.forall₂_iff_zip.mp hMatched.alike).2 hClass, hClass⟩⟩
  refine List.rel_filterMap (fun c c' hClass => ?_) hClasses
  obtain ⟨hAlike, hPair⟩ := hClass
  rw [hAlike.parent]
  cases c.parent with
  | none => exact .none
  | some parent =>
    exact .some ⟨hAlike.name, rfl, hMatched.path, (f, f'), hMem, (c, c'), hPair, rfl, rfl, rfl⟩

theorem sameParents_fillIndex (h : List.Forall₂ Matched files files') :
    ClassIndex.SameParents (fillIndex .empty (declared files)).1
      (fillIndex .empty (declared files')).1 := by
  intro name
  have hRel := rel_entryOf? (forall₂_declared h) name
  rw [find?_fillIndex_empty, find?_fillIndex_empty]
  generalize entryOf? name (declared files) = e, entryOf? name (declared files') = e' at hRel ⊢
  cases hRel with
  | none => rfl
  | some hSame => exact congrArg some hSame.parent

theorem eq_of_same (h : List.Forall₂ Matched files files')
    (hDistinct : files.Pairwise fun f g => f.path.same g.path = false)
    {f g : ParsedFile × ParsedFile} (hf : f ∈ files.zip files') (hg : g ∈ files.zip files')
    (hSame : f.1.path.same g.1.path = true) : f = g := by
  rw [← List.map_fst_zip h.length_eq.le, List.pairwise_map] at hDistinct
  have hSymm (f g : ParsedFile × ParsedFile) : f.1.path.same g.1.path = g.1.path.same f.1.path := by
    rw [Bool.eq_iff_iff, Path.same_iff, Path.same_iff, eq_comm]
  refine List.Pairwise.forall_of_forall_of_flip (R := fun f g => f.1.path.same g.1.path = true → f = g)
    (fun _ _ _ => rfl) (hDistinct.imp fun {f g} hFalse hSame => ?_)
    (hDistinct.imp fun {f g} hFalse hSame => ?_) hf hg hSame
  · rw [hFalse] at hSame
    cases hSame
  · rw [hSymm, hFalse] at hSame
    cases hSame

/-- A class owns its name in both indexes or in neither. -/
theorem isOwner_fillIndex (h : List.Forall₂ Matched files files')
    (hDistinct : files.Pairwise fun f g => f.path.same g.path = false)
    {f : ParsedFile × ParsedFile} (hf : f ∈ files.zip files') {c : ClassNode × ClassNode}
    (hc : c ∈ f.1.classes.zip f.2.classes) :
    (fillIndex .empty (declared files')).1.isOwner c.2.name f.2.path c.2.startLine =
      (fillIndex .empty (declared files)).1.isOwner c.1.name f.1.path c.1.startLine := by
  have hMatched : Matched f.1 f.2 := (List.forall₂_iff_zip.mp h).2 hf
  have hAlike : ClassNode.Alike c.1 c.2 := (List.forall₂_iff_zip.mp hMatched.alike).2 hc
  have hRel := rel_entryOf? (forall₂_declared h) c.1.name
  rw [hMatched.path, hAlike.name, ClassIndex.isOwner, ClassIndex.isOwner, find?_fillIndex_empty,
    find?_fillIndex_empty]
  generalize entryOf? c.1.name (declared files) = e, entryOf? c.1.name (declared files') = e'
    at hRel ⊢
  cases hRel with
  | none => rfl
  | @some e e' hSame =>
    obtain ⟨g, hg, d, hd, hPath, hLine, hLine'⟩ := hSame.line
    dsimp only
    rw [hSame.path]
    by_cases hOwn : e.path.same f.1.path = true
    · -- Both classes are in this file, as there is no other file of the path.
      rw [hPath] at hOwn
      have hFile : g = f := eq_of_same h hDistinct hg hf hOwn
      subst hFile
      rw [hLine, hLine', Bool.eq_iff_iff]
      simp [hMatched.aligned d hd c hc]
    · simp [hOwn]

end Run

end DocWiring
