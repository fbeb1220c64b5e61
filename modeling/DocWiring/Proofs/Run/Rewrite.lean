import DocWiring.Proofs.Merge.Revision
import DocWiring.Proofs.Php.Parsing
import DocWiring.Proofs.Run.Total
import DocWiring.Run.Plan

/-! # A file that is rewritten

When the patches of a file are applied, the file still declares the same classes: the names, the
parents and the attributes are the same, in the same order.
-/

namespace DocWiring.FileResult

open DocBlock Merge Php

/-- The block that is found for a class that is patched, and its new one. -/
def fit? (remove : Bool) (u : SourceUnit) (o : ClassNode × ClassOutcome) : Option Fit :=
  match o.2, locate u o.1 with
  | .patched p, .ok b => some ⟨b, { base remove b with lines := p.replacement }⟩
  | _, _ => none

/-- The annotations that a class should have by the rules of its top ancestor. -/
def annotationsOf (s : Setup) (index : ClassIndex) (path : Path) (cls : ClassNode) :
    List Annotation :=
  match index.topAncestor cls.name, s.extractor.extract path cls with
  | .ok ancestor, .ok x =>
    match s.config.transforms.rulesFor? ancestor with
    | some rules => (render s.extractor x rules).toOption.getD []
    | none => []
  | _, _ => []

/-- Every annotation that the classes of a file should have is made of words. -/
def Worded (s : Setup) (index : ClassIndex) (file : ParsedFile) : Prop :=
  ∀ cls ∈ file.classes, ∀ a ∈ annotationsOf s index file.path cls, a.Wordy

/-- Every class of a file that is patched stands alone. -/
def Alone (parser : SyntaxParser) (s : Setup) (index : ClassIndex) (file : ParsedFile) : Prop :=
  ∀ o ∈ classOutcomes s index file .start file.classes, o.2.patch?.isSome = true →
    parser.standsAlone file.source o.1 = true

instance (s : Setup) (index : ClassIndex) (file : ParsedFile) : Decidable (Worded s index file) :=
  inferInstanceAs (Decidable (∀ cls ∈ file.classes, ∀ a ∈ annotationsOf s index file.path cls, a.Wordy))

instance (parser : SyntaxParser) (s : Setup) (index : ClassIndex) (file : ParsedFile) :
    Decidable (Alone parser s index file) :=
  inferInstanceAs (Decidable (∀ o ∈ classOutcomes s index file .start file.classes,
    o.2.patch?.isSome = true → parser.standsAlone file.source o.1 = true))

variable {s : Setup} {index : ClassIndex} {file : ParsedFile} {p : Patch} {parser : SyntaxParser}
  {updated : SourceUnit} {root : Node}

theorem fit?_of_merge {x : Extractor} {remove : Bool} {u : SourceUnit} {cls : ClassNode}
    {extraction : Extraction} {rules : AttributeRules}
    (h : merge x remove u cls extraction rules = .ok (some p)) :
    ∃ annotations b, render x extraction rules = .ok annotations ∧ locate u cls = .ok b ∧
      p = ⟨b.start, b.replaced.length, (annotations.foldl insert (base remove b)).lines⟩ ∧
      fit? remove u (cls, .patched p) = some ⟨b, annotations.foldl insert (base remove b)⟩ := by
  obtain ⟨annotations, b, hRender, hLocate, hBlock⟩ := merge_eq_ok_some_iff.mp h
  obtain ⟨_, _, rfl⟩ := mergeBlock_eq_some_iff.mp hBlock
  refine ⟨annotations, b, hRender, hLocate, rfl, ?_⟩
  simp only [fit?, hLocate, Option.some.injEq, Fit.mk.injEq, true_and]
  apply DocBlock.ext <;> simp

theorem Merging.annotationsOf_eq {cls : ClassNode} {outcome : ClassOutcome} {ancestor : String}
    {rules : AttributeRules} {x : Extraction}
    (h : Merging s index file cls outcome ancestor rules x) {annotations : List Annotation}
    (hRender : render s.extractor x rules = .ok annotations) :
    annotationsOf s index file.path cls = annotations := by
  simp only [annotationsOf, h.climbed, h.extracted, h.ruled, hRender]
  rfl

theorem Worded.wordy_of_merging (hWorded : Worded s index file) {cls : ClassNode}
    {outcome : ClassOutcome} (h : (cls, outcome) ∈ classOutcomes s index file .start file.classes)
    {ancestor : String} {rules : AttributeRules} {x : Extraction}
    (hMerging : Merging s index file cls outcome ancestor rules x) {annotations : List Annotation}
    (hRender : render s.extractor x rules = .ok annotations) : ∀ a ∈ annotations, a.Wordy := by
  rw [← hMerging.annotationsOf_eq hRender]
  exact hWorded cls (mem_of_mem_classOutcomes h)

theorem merge_of_merging {cls : ClassNode} {ancestor : String} {rules : AttributeRules}
    {x : Extraction} (h : Merging s index file cls (.patched p) ancestor rules x) :
    merge s.extractor s.removes file.source cls x rules = .ok (some p) := by
  cases h.merges with
  | patched merge => exact merge

/-- The fit of a class that is patched. -/
theorem exists_fit (hWorded : Worded s index file) {cls : ClassNode}
    (h : (cls, .patched p) ∈ classOutcomes s index file .start file.classes) :
    ∃ (annotations : List Annotation) (b : DocBlock), (∀ a ∈ annotations, a.Wordy) ∧
      locate file.source cls = .ok b ∧
      p = ⟨b.start, b.replaced.length, (annotations.foldl insert (base s.removes b)).lines⟩ ∧
      fit? s.removes file.source (cls, .patched p) =
        some ⟨b, annotations.foldl insert (base s.removes b)⟩ := by
  obtain ⟨ancestor, rules, x, hMerging⟩ := exists_merging_of_mem h rfl
  obtain ⟨annotations, b, hRender, hRest⟩ := fit?_of_merge (merge_of_merging hMerging)
  exact ⟨annotations, b, hWorded.wordy_of_merging h hMerging hRender, hRest⟩

/-- The patch of a class is that of its fit. -/
theorem map_patch_fit? (hWorded : Worded s index file) {o : ClassNode × ClassOutcome}
    (h : o ∈ classOutcomes s index file .start file.classes) :
    (fit? s.removes file.source o).map Fit.patch = o.2.patch? := by
  obtain ⟨cls, outcome⟩ := o
  cases outcome with
  | patched p =>
    obtain ⟨_, _, _, _, rfl, hFit⟩ := exists_fit hWorded h
    rw [hFit]
    rfl
  | _ => rfl

/-- The sites of the classes of a file, and the blocks of those that are patched. -/
def fitsOf (s : Setup) (index : ClassIndex) (file : ParsedFile) (root : Node) : List (Site × Option Fit) :=
  (root.sites 0 []).zip ((classOutcomes s index file .start file.classes).map
    (fit? s.removes file.source))

section

variable (hClasses : file.classes = root.classes)

include hClasses

/-- The classes of a file stand at the sites of its tree, in this order. -/
theorem forall₂_sites (s : Setup) (index : ClassIndex) :
    List.Forall₂ (fun site o => Site.toClass site = o.1) (root.sites 0 [])
    (classOutcomes s index file .start file.classes) := by
  have hSame : (root.sites 0 []).map Site.toClass =
      (classOutcomes s index file .start file.classes).map Prod.fst := by
    rw [map_fst_classOutcomes, hClasses, Node.map_toClass_sites]
  rwa [← List.forall₂_eq_eq_eq, List.forall₂_map_left_iff, List.forall₂_map_right_iff] at hSame

theorem map_fst_fitsOf : (fitsOf s index file root).map Prod.fst = root.sites 0 [] := by
  refine List.map_fst_zip (Nat.le_of_eq ?_)
  rw [List.length_map]
  exact (forall₂_sites hClasses s index).length_eq

theorem patchesOfFits_fitsOf (hWorded : Worded s index file) : patchesOfFits (fitsOf s index file root) =
    (patchesOf (classOutcomes s index file .start file.classes)).map Prod.snd := by
  have hSites := forall₂_sites hClasses s index
  have hMap := fun o (ho : o ∈ classOutcomes s index file .start file.classes) => map_patch_fit? hWorded ho
  unfold patchesOfFits fitsOf patchesOf
  generalize root.sites 0 [] = sites, classOutcomes s index file .start file.classes = os at hSites hMap ⊢
  induction hSites with
  | nil => rfl
  | @cons site o sites os _ _ ih =>
    obtain ⟨hHere, hRest⟩ := List.forall_mem_cons.mp hMap
    rw [List.map_cons, List.zip_cons_cons, List.filterMap_cons, List.filterMap_cons, ih hRest, hHere]
    cases o.2.patch? <;> rfl

/-- The patch of a class that stands alone goes into the white space before it. -/
theorem into_of_mem_fitsOf (hWorded : Worded s index file) (hAlone : Alone parser s index file)
    (h : Parsed parser file.source root) (hText : root.text = file.source.text) (hRegular : root.Regular) :
    ∀ x ∈ fitsOf s index file root, ∀ f ∈ x.2, f.Into x.1 := by
  rintro ⟨place, found⟩ hx f hf
  obtain rfl : found = some f := hf
  rw [fitsOf, List.zip_map_right, List.mem_map] at hx
  obtain ⟨⟨site, cls, outcome⟩, hMem, hSame⟩ := hx
  obtain ⟨hPlace, hFit⟩ := Prod.mk.inj hSame
  subst hPlace
  obtain ⟨hSite, hOutcome⟩ := List.of_mem_zip hMem
  obtain rfl : Site.toClass site = cls := (List.forall₂_iff_zip.mp (forall₂_sites hClasses s index)).2 hMem
  cases outcome with
  | patched p =>
    obtain ⟨annotations, b, hAnn, hLocate, _, hThis⟩ := exists_fit hWorded hOutcome
    have hSome : some f = some ⟨b, annotations.foldl insert (base s.removes b)⟩ := hFit.symm.trans hThis
    obtain rfl := Option.some.inj hSome
    have hAll := hAlone _ hOutcome rfl
    rw [SyntaxParser.standsAlone, h.accepts.parsed] at hAll
    have hHere := List.all_eq_true.mp hAll site hSite
    rw [bne_self_eq_false, Bool.false_or] at hHere
    exact into_of_room h.areCut hText hRegular hSite (room_of_leavesLines hHere) hLocate hAnn _
  | _ => cases hFit

end

/-- A file, and what becomes of its classes when its patches are applied. -/
structure Rewritten (parser : SyntaxParser) (s : Setup) (index : ClassIndex) (file : ParsedFile)
    (updated : SourceUnit) (lines : Nat → Nat → Prop) (classes : List ClassNode) : Prop where
  areCut : Line.AreCut updated.lines
  encoding : updated.encoding = file.source.encoding
  declared : ∀ path, parser.classes path updated = .ok classes
  ne_nil : file.source.lines ≠ [] → updated.lines ≠ []
  biUnique : Relator.BiUnique lines
  revised : List.Forall₂ (fun o c' => Revised file.source updated lines
      ((fit? s.removes file.source o).map Fit.final) o.1 c')
    (classOutcomes s index file .start file.classes) classes

/-- A file to which its patches have been applied declares the same classes, with the new blocks. -/
theorem exists_rewritten (hParser : parser.Lawful) (hCut : Line.AreCut file.source.lines)
    (hClasses : parser.classes file.path file.source = .ok file.classes) (hWorded : Worded s index file)
    (hAlone : Alone parser s index file) (hApplied : Patch.applyAll file.source
      ((patchesOf (classOutcomes s index file .start file.classes)).map Prod.snd) = .ok updated) :
    ∃ lines classes, Rewritten parser s index file updated lines classes := by
  obtain ⟨root, hAccepts, hDeclared⟩ := SyntaxParser.classes_eq_ok_iff.mp hClasses
  have hParsed : Parsed parser file.source root := ⟨hCut, hAccepts⟩
  rw [← patchesOfFits_fitsOf hDeclared hWorded] at hApplied
  obtain ⟨lines, root', hRevision⟩ := exists_revision_of_applyAll hParser hParsed
    (map_fst_fitsOf hDeclared).symm (into_of_mem_fitsOf hDeclared hWorded hAlone hParsed
      (hParser.text_eq hAccepts) (hParser.regular hAccepts)) hApplied
  refine ⟨lines, root'.classes, hRevision.parsed.areCut, hRevision.encoding,
    fun path => SyntaxParser.classes_eq_ok_iff.mpr ⟨root', hRevision.parsed.accepts, rfl⟩,
    hRevision.ne_nil, hRevision.biUnique, ?_⟩
  have hRevised := hRevision.classes
  have hSites := forall₂_sites hDeclared s index
  rw [Node.map_toClass_sites, fitsOf] at hRevised
  generalize root.sites 0 [] = sites, classOutcomes s index file .start file.classes = os,
    root'.classes = classes at hSites hRevised ⊢
  induction hSites generalizing classes with
  | nil =>
    cases hRevised
    exact .nil
  | cons hSame _ ih =>
    cases hRevised with
    | cons hHere hRest => exact .cons (hSame ▸ hHere) (ih _ hRest)

theorem Rewritten.forall₂_classes {lines : Nat → Nat → Prop} {classes : List ClassNode}
    (h : Rewritten parser s index file updated lines classes) {R : ClassNode → ClassNode → Prop}
    (hR : ∀ {final c c'}, Revised file.source updated lines final c c' → R c c') :
    List.Forall₂ R file.classes classes := by
  have hFirst : (classOutcomes s index file .start file.classes).map Prod.fst = file.classes :=
    map_fst_classOutcomes _ _
  rw [← hFirst, List.forall₂_map_left_iff]
  exact h.revised.imp fun _ _ hRevised => hR hRevised

theorem Rewritten.alike {lines : Nat → Nat → Prop} {classes : List ClassNode}
    (h : Rewritten parser s index file updated lines classes) :
    List.Forall₂ ClassNode.Alike file.classes classes :=
  h.forall₂_classes Revised.alike

theorem applied_of_change {r : FileResult} {change : FileChange}
    (h : ofFile s index file = .ok r) (hChange : r.change? = some change) :
    ∃ updated, Patch.applyAll file.source
        ((patchesOf (classOutcomes s index file .start file.classes)).map Prod.snd) = .ok updated ∧
      change.after = updated.text := by
  rw [ofFile_eq] at h
  obtain rfl := Except.ok.inj h
  obtain ⟨bytes, hEnding⟩ := exists_ending_of_change hChange
  have hEnds := ends_resultOf s index file
  rw [hEnding] at hEnds
  cases hEnds with
  | shown _ hApplied => exact ⟨_, hApplied, rfl⟩
  | encoded _ hApplied _ => exact ⟨_, hApplied, rfl⟩

/-- A file that is rewritten still declares the same classes. -/
theorem exists_classes_of_change {r : FileResult} {change : FileChange} (hParser : parser.Lawful)
    (hRead : file.source.IsRead) (hClasses : parser.classes file.path file.source = .ok file.classes)
    (hWorded : Worded s index file) (hAlone : Alone parser s index file)
    (hFile : ofFile s index file = .ok r) (hChange : r.change? = some change) :
    ∃ classes, parser.classes file.path (.ofText change.after) = .ok classes ∧
      List.Forall₂ ClassNode.Alike file.classes classes := by
  obtain ⟨updated, hApplied, hAfter⟩ := applied_of_change hFile hChange
  obtain ⟨lines, classes, hRewritten⟩ :=
    exists_rewritten hParser hRead.areCut hClasses hWorded hAlone hApplied
  refine ⟨classes, ?_, hRewritten.alike⟩
  rw [SyntaxParser.classes_eq_ok_iff, SourceUnit.text_ofText, hAfter]
  exact SyntaxParser.classes_eq_ok_iff.mp (hRewritten.declared file.path)

/-- A class without a doc comment, and one whose comment says what is out of date. -/
def wiredText : String :=
  "<?php\nclass A extends Shell \x7b\n  var $uses = ['Post'];\n\x7d\n/** B @property Old $Old */\n" ++
    "class B extends A \x7b var $uses = ['Tag']; \x7d\n"

def wiredFile : ParsedFile :=
  ⟨⟨"a.php"⟩, .ofText wiredText.toList,
    [⟨"A", some "Shell", 2, none, [⟨"uses", some (.list [.bare (.string "Post")])⟩]⟩,
      ⟨"B", some "A", 6, some ⟨5, 5⟩, [⟨"uses", some (.list [.bare (.string "Tag")])⟩]⟩]⟩

def wiredSetup : Setup :=
  ⟨Php.classes, .standard, false, true⟩

def wiredIndex : ClassIndex :=
  (Run.fillIndex .empty (Run.declared [wiredFile])).1

def wiredAfter : String :=
  "<?php\n/**\n * @property Post $Post\n */\nclass A extends Shell \x7b\n  var $uses = ['Post'];\n\x7d\n" ++
    "/** B\n * @property Tag $Tag\n */\nclass B extends A \x7b var $uses = ['Tag']; \x7d\n"

theorem exists_classes_of_wiredFile :
    ∃ r change, ofFile wiredSetup wiredIndex wiredFile = .ok r ∧ r.change? = some change ∧
      change.after = wiredAfter.toList ∧
      ∃ classes, Php.classes wiredFile.path (.ofText change.after) = .ok classes ∧
        List.Forall₂ ClassNode.Alike wiredFile.classes classes := by
  have hClasses : Php.classes wiredFile.path wiredFile.source = .ok wiredFile.classes := by
    decide +kernel
  have hResult : ((ofFile wiredSetup wiredIndex wiredFile).toOption.bind change?).map (·.after) =
      some wiredAfter.toList := by decide +kernel
  obtain ⟨change, hChange, hAfter⟩ := Option.map_eq_some_iff.mp hResult
  obtain ⟨r, hFile, hChange⟩ := Option.bind_eq_some_iff.mp hChange
  have hFile : ofFile wiredSetup wiredIndex wiredFile = .ok r := by
    cases h : ofFile wiredSetup wiredIndex wiredFile with
    | error e =>
      rw [h] at hFile
      cases hFile
    | ok found =>
      rw [h] at hFile
      rw [Option.some.inj hFile]
  exact ⟨r, change, hFile, hChange, hAfter, exists_classes_of_change parser_lawful
    (.inl ⟨_, rfl⟩) hClasses (by decide +kernel) (by decide +kernel) hFile hChange⟩

/-- A class on the line on which a comment ends that is no doc comment. -/
def trailingFile : ParsedFile :=
  ⟨⟨"a.php"⟩,
    .ofText "<?php\n/* one\ntwo */ class A extends Shell \x7b var $uses = ['Post']; \x7d\n".toList,
    [⟨"A", some "Shell", 3, none, [⟨"uses", some (.list [.bare (.string "Post")])⟩]⟩]⟩

def trailingSetup : Setup :=
  ⟨Php.classes, .standard, false, false⟩

def trailingIndex : ClassIndex :=
  (Run.fillIndex .empty (Run.declared [trailingFile])).1

/-- The doc block of such a class comes into the comment, and the rest of the comment is no longer one. -/
theorem classes_trailingFile_rewritten :
    Php.parser.Lawful ∧ Php.classes trailingFile.path trailingFile.source = .ok trailingFile.classes ∧
      Worded trailingSetup trailingIndex trailingFile ∧
      ((ofFile trailingSetup trailingIndex trailingFile).toOption.bind change?).map (fun change =>
        (Php.classes trailingFile.path (.ofText change.after)).isOk) = some false :=
  ⟨parser_lawful, by decide +kernel⟩

end DocWiring.FileResult
