import DocWiring.Proofs.DocBlock.Relocation
import DocWiring.Proofs.Merge.Placement
import DocWiring.Proofs.Php.Refit

/-! # Revising a file

When the patches of a file are applied, the file declares the same classes.  The blocks of the classes
that are patched are the new ones, and those of the other classes are the ones they were.  The patches
are applied to one class after another, the last class first.
-/

namespace DocWiring

/-- The same class, but for its place and its doc comment. -/
structure ClassNode.Alike (c d : ClassNode) : Prop where
  name : d.name = c.name
  parent : d.parent = c.parent
  attributes : d.attributes = c.attributes

namespace Merge

open DocBlock Php

/-- The text of a file is parsed to this tree. -/
structure Parsed (parser : SyntaxParser) (u : SourceUnit) (root : Node) : Prop where
  areCut : Line.AreCut u.lines
  accepts : parser.Accepts u.text root

/-- A class of one file, and what becomes of it in another: lines have got other numbers, and the class
may have got a new block. -/
structure Revised (u v : SourceUnit) (lines : Nat → Nat → Prop) (final : Option DocBlock)
    (c c' : ClassNode) : Prop where
  alike : c.Alike c'
  line : lines c.startLine c'.startLine
  moved : final = none → Moved u c v c'
  settled : ∀ b ∈ final, ∃ start, locate v c' = .ok (b.movedTo b.lines start)

namespace Revised

variable {u v w : SourceUnit} {lines lines' : Nat → Nat → Prop} {final : Option DocBlock}
  {c d e : ClassNode}

theorem refl (u : SourceUnit) (c : ClassNode) : Revised u u Eq none c c where
  alike := ⟨rfl, rfl, rfl⟩
  line := rfl
  moved _ := .refl u c
  settled _ hb := absurd hb (Option.not_mem_none _)

theorem trans (h : Revised u v lines none c d) (h' : Revised v w lines' final d e) :
    Revised u w (Relation.Comp lines lines') final c e where
  alike := ⟨h'.alike.name.trans h.alike.name, h'.alike.parent.trans h.alike.parent,
    h'.alike.attributes.trans h.alike.attributes⟩
  line := ⟨_, h.line, h'.line⟩
  moved hNone := (h.moved rfl).trans (h'.moved hNone)
  settled := h'.settled

/-- A class keeps its block when others are patched. -/
theorem keep (h : Revised u v lines final c d) (h' : Revised v w lines' none d e) :
    Revised u w (Relation.Comp lines lines') final c e where
  alike := ⟨h'.alike.name.trans h.alike.name, h'.alike.parent.trans h.alike.parent,
    h'.alike.attributes.trans h.alike.attributes⟩
  line := ⟨_, h.line, h'.line⟩
  moved hNone := (h.moved hNone).trans (h'.moved rfl)
  settled b hb := by
    obtain ⟨_, hLocate⟩ := h.settled b hb
    obtain ⟨start, hMoved⟩ := h'.moved rfl _ hLocate
    exact ⟨start, hMoved⟩

end Revised

/-- The numbers that lines get when `new` lines take the place of `old` ones after line `k`. -/
def Renumbers (k old new m n : Nat) : Prop :=
  m ≤ k ∧ n = m ∨ ∃ j, m = k + old + j + 1 ∧ n = k + new + j + 1

theorem biUnique_renumbers (k old new : Nat) : Relator.BiUnique (Renumbers k old new) := by
  constructor
  · rintro m n l (⟨hm, rfl⟩ | ⟨i, rfl, rfl⟩) (⟨hn, hSame⟩ | ⟨j, rfl, hSame⟩) <;> omega
  · rintro l m n (⟨hm, rfl⟩ | ⟨i, rfl, rfl⟩) (⟨hn, rfl⟩ | ⟨j, hSame, rfl⟩) <;> omega

theorem biUnique_comp {r r' : Nat → Nat → Prop} (h : Relator.BiUnique r) (h' : Relator.BiUnique r') :
    Relator.BiUnique (Relation.Comp r r') := by
  constructor
  · rintro k m l ⟨_, hk, hkl⟩ ⟨_, hm, hml⟩
    obtain rfl := h'.1 hkl hml
    exact h.1 hk hm
  · rintro k m l ⟨_, hm, hkm⟩ ⟨_, hl, hkl⟩
    obtain rfl := h.2 hm hl
    exact h'.2 hkm hkl

/-! ## One class -/

/-- A file with other lines between its first and its last ones. -/
structure Replaced (u v : SourceUnit) (up old new down : List Line) : Prop where
  lines : u.lines = up ++ old ++ down
  lines' : v.lines = up ++ new ++ down
  encoding : v.encoding = u.encoding
  whole : ∀ l ∈ up, Line.Whole l
  ne_nil : up ≠ []

namespace Replaced

variable {u v : SourceUnit} {up old new down : List Line} {s : Site} {m : Nat}

theorem firstEol?_eq (h : Replaced u v up old new down) : v.firstEol? = u.firstEol? := by
  obtain ⟨l, more, rfl⟩ := List.exists_cons_of_ne_nil h.ne_nil
  have hl : Line.Whole l := h.whole l List.mem_cons_self
  have hLines : u.lines = l :: (more ++ old ++ down) := h.lines
  have hLines' : v.lines = l :: (more ++ new ++ down) := h.lines'
  rw [DocBlock.firstEol?_eq hLines hl, DocBlock.firstEol?_eq hLines' hl]

theorem areCut (h : Replaced u v up old new down) (hCut : Line.AreCut u.lines)
    (hNew : ∀ l ∈ new, Line.Whole l) : Line.AreCut v.lines := by
  have hDown : Line.AreCut down := by
    have hDrop := hCut.drop (up ++ old).length
    rwa [h.lines, List.drop_left] at hDrop
  rw [h.lines']
  refine Line.AreCut.append ?_ hDown
  intro l hl
  rcases List.mem_append.mp hl with hl | hl
  · exact h.whole l hl
  · exact hNew l hl

/-- A class above the change stays as it is. -/
theorem revised_above (h : Replaced u v up old new down) (hRow : s.row < up.length) :
    Revised u v (Renumbers up.length old.length new.length) none s.toClass s.toClass where
  alike := ⟨rfl, rfl, rfl⟩
  line := .inl ⟨hRow, rfl⟩
  moved _ b hLocate := by
    have hLines : u.lines = up ++ (old ++ down) := by rw [h.lines, List.append_assoc]
    have hLines' : v.lines = up ++ (new ++ down) := by rw [h.lines', List.append_assoc]
    have hSame : locate v s.toClass = locate u s.toClass :=
      locate_above h.whole hLines hLines' hRow fun c hc => (s.endLine_le hc).trans hRow
    exact ⟨b.start, hSame.trans hLocate⟩
  settled _ hb := absurd hb (Option.not_mem_none _)

/-- A class below the change goes up or down with its lines. -/
theorem revised_below (h : Replaced u v up old new down) (s : Site) :
    Revised u v (Renumbers up.length old.length new.length) none
      (s.shift (up ++ old).length).toClass (s.shift (up ++ new).length).toClass := by
  rw [Site.toClass_shift, Site.toClass_shift]
  refine ⟨⟨rfl, rfl, rfl⟩, .inr ⟨s.row, ?_, ?_⟩, fun _ => ?_, fun _ hb => absurd hb (Option.not_mem_none _)⟩
  · change s.row + 1 + (up ++ old).length = _
    rw [List.length_append]
    omega
  · change s.row + 1 + (up ++ new).length = _
    rw [List.length_append]
    omega
  · exact moved_below h.lines h.lines' h.firstEol?_eq (Nat.succ_pos _) fun c hc => s.docComment_pos hc

theorem forall₂_below (h : Replaced u v up old new down) {ss ss' : List Site}
    (hLowered : Lowered (up ++ old).length (up ++ new).length ss ss') :
    List.Forall₂ (Revised u v (Renumbers up.length old.length new.length) none)
      (ss.map Site.toClass) (ss'.map Site.toClass) := by
  obtain ⟨rs, hOld, hNew⟩ := hLowered
  rw [hOld, hNew]
  exact List.forall₂_map_left_iff.mpr (List.forall₂_map_right_iff.mpr
    (List.forall₂_same.mpr fun r _ => h.revised_below r))

end Replaced

section Step

variable {parser : SyntaxParser} {u v : SourceUnit} {root : Node} {P Q : List Site} {s : Site} {f : Fit}
  {front old new near : List Node} {x y : List Char}

theorem feeds_of_text {ns : List Node} {ls : List Line} (hWhole : ∀ l ∈ ls, Line.Whole l)
    (h : Node.textAll ns = x ++ '\n' :: (ls.flatten ++ y)) :
    feeds ns = lineBreaks x + 1 + ls.length + lineBreaks y := by
  have hCount : lineBreaks ls.flatten = ls.length := Line.count_flatten hWhole
  rw [← Node.lineBreaks_textAll, h, lineBreaks_append, lineBreaks_cons_feed, lineBreaks_append, hCount]
  omega

theorem feeds_before (near ns front : List Node) :
    feeds (near.reverse ++ (ns.reverse ++ front.reverse)) = feeds near + (feeds ns + feeds front) := by
  rw [feeds_append, feeds_append, feeds_reverse, feeds_reverse, feeds_reverse]

/-- The block goes where its lines stand in the text of the tree. -/
theorem Fit.Fills.exists_replaced (h : f.Fills s front old new near x y) (hCut : Line.AreCut u.lines)
    (hWhole : ∀ l ∈ f.found.replaced, Line.Whole l) {above below : List Char}
    (hText : u.text = above ++ (Node.textAll old ++ below)) :
    ∃ (v : SourceUnit) (up down : List Line), Replaced u v up f.found.replaced f.final.lines down ∧
      v.text = above ++ (Node.textAll new ++ below) ∧ up.length = lineBreaks above + lineBreaks x + 1 := by
  obtain ⟨up, hUp, hFlat, hLength, hCount⟩ := Line.exists_lines_feed (above ++ x)
  rw [h.text] at hText
  have hLines : u.lines = up ++ f.found.replaced ++ Line.ofText (y ++ below) := by
    rw [← hCut, List.append_assoc up, ← Line.ofText_flatten_append hWhole, ← hCount]
    exact congrArg Line.ofText (hText.trans (by simp))
  have hNil : up ≠ [] := by
    rintro rfl
    cases hLength
  refine ⟨{ u with lines := up ++ f.final.lines ++ Line.ofText (y ++ below) }, up, _,
    ⟨hLines, rfl, rfl, hUp, hNil⟩, ?_, ?_⟩
  · rw [SourceUnit.text, List.flatten_append, List.flatten_append, hFlat, Line.flatten_ofText, h.text']
    simp
  · rw [hLength, ← lineBreaks_append]
    rfl

/-- What the patch of one class makes of a file and of its classes. -/
structure Step (parser : SyntaxParser) (u v : SourceUnit) (f : Fit) (P Q : List Site) (s : Site)
    (lines : Nat → Nat → Prop) (root' : Node) (s' : Site) (Q' : List Site) : Prop where
  parsed : Parsed parser v root'
  encoding : v.encoding = u.encoding
  spliced : v.lines = u.lines.take f.patch.start ++ f.patch.replacement ++ u.lines.drop f.patch.stop
  ne_nil : v.lines ≠ []
  biUnique : Relator.BiUnique lines
  sites : root'.sites 0 [] = P ++ s' :: Q'
  above : ∀ q ∈ P, Revised u v lines none q.toClass q.toClass
  here : Revised u v lines (some f.final) s.toClass s'.toClass
  below : List.Forall₂ (Revised u v lines none) (Q.map Site.toClass) (Q'.map Site.toClass)

/-- The class that is patched has the new block. -/
theorem Fit.Fills.revised (h : f.Fills s front old new near x y) {up down : List Line}
    (hReplaced : Replaced u v up f.found.replaced f.final.lines down) (hStart : f.found.start = up.length)
    (hWhole : ∀ l ∈ f.found.replaced, Line.Whole l)
    (hFramed : ∃ first middle last, Framed f.final first middle last) :
    Revised u v (Renumbers up.length f.found.replaced.length f.final.lines.length) (some f.final) s.toClass
      (Site.toClass { s with before := near.reverse ++ (new.reverse ++ front.reverse) }) where
  alike := ⟨rfl, rfl, rfl⟩
  line := by
    obtain ⟨_, _, _, hFramed⟩ := hFramed
    have hOld := feeds_of_text hWhole h.text
    have hNew := feeds_of_text hFramed.whole h.text'
    have hPlace := h.start
    refine .inr ⟨lineBreaks y + feeds near, ?_, ?_⟩
    · change s.base + feeds s.before + 1 = _
      rw [h.before, feeds_before]
      omega
    · change s.base + feeds (near.reverse ++ (new.reverse ++ front.reverse)) + 1 = _
      rw [feeds_before]
      omega
  moved hNone := nomatch hNone
  settled b hb := by
    obtain rfl := Option.some.inj hb
    obtain ⟨_, _, _, hFramed⟩ := hFramed
    have hNear : ∀ n ∈ near.reverse, n.isLoose = true ∧ n.isDoc = false :=
      fun n hn => h.loose n (List.mem_reverse.mp hn)
    refine ⟨up.length, hFramed.locate_eq hReplaced.lines' ?_⟩
    change leadingDoc? s.base (near.reverse ++ (new.reverse ++ front.reverse)) = _
    rw [leadingDoc?_append_loose hNear, h.doc, hStart]

/-- The patch of a class that stands alone leaves a file with the same classes. -/
theorem exists_step (hParser : parser.Lawful) (h : Parsed parser u root)
    (hSites : root.sites 0 [] = P ++ s :: Q) (hInto : f.Into s) :
    ∃ v lines root' s' Q', Step parser u v f P Q s lines root' s' Q' := by
  obtain ⟨front, old, new, near, x, y, hFills⟩ := hInto.fills
  obtain ⟨_, _, _, hFramed⟩ := hInto.framed
  obtain ⟨root', above, below, hRefilled, hText, hText', hBase, hRows, Q', hSites', hLowered⟩ :=
    exists_refit_root hFills.exchange (fun n hn => (hFills.loose n hn).1) hFills.before
      (hParser.regular h.accepts) hSites
  rw [hParser.text_eq h.accepts] at hText
  obtain ⟨v, up, down, hReplaced, hNew, hUp⟩ := hFills.exists_replaced h.areCut hInto.whole hText
  have hAccepts := hParser.accepts h.accepts hRefilled
  have hStart : f.found.start = up.length := by rw [hFills.start, hUp, hBase]
  have hStop : f.patch.stop = (up ++ f.found.replaced).length := by
    rw [Patch.stop, List.length_append, ← hStart]
    rfl
  refine ⟨v, _, root', _, Q', ⟨hReplaced.areCut h.areCut hFramed.whole, ?_⟩, hReplaced.encoding, ?_, ?_,
    biUnique_renumbers _ _ _, hSites', fun q hq => hReplaced.revised_above ?_,
    hFills.revised hReplaced hStart hInto.whole hInto.framed, hReplaced.forall₂_below ?_⟩
  · rwa [hNew, ← hText']
  · have hFirst : f.patch.start = up.length := hStart
    rw [hStop, hFirst, hReplaced.lines, hReplaced.lines', List.drop_left, List.append_assoc up f.found.replaced,
      List.take_left]
    rfl
  · rw [hReplaced.lines']
    simp [hReplaced.ne_nil]
  · have hRow := hRows q hq
    omega
  · rw [feeds_of_text hInto.whole hFills.text, feeds_of_text hFramed.whole hFills.text'] at hLowered
    refine Lowered.add (k := lineBreaks y) ?_
    rw [List.length_append, List.length_append, hUp]
    convert hLowered using 1 <;> omega

end Step

/-! ## All classes -/

section Splice

variable {parser : SyntaxParser} {u v : SourceUnit} {root : Node} {pre : List Site}
  {xs : List (Site × Option Fit)} {s t : Site} {f g : Fit}

def patchesOfFits (xs : List (Site × Option Fit)) : List Patch :=
  xs.filterMap fun x => x.2.map Fit.patch

/-- A file is revised when these classes are patched. -/
structure Revision (parser : SyntaxParser) (u v : SourceUnit) (xs : List (Site × Option Fit))
    (lines : Nat → Nat → Prop) (root' : Node) (ss' : List Site) : Prop where
  parsed : Parsed parser v root'
  encoding : v.encoding = u.encoding
  spliced : v.lines = Patch.splice 0 (patchesOfFits xs) u.lines
  ne_nil : u.lines ≠ [] → v.lines ≠ []
  biUnique : Relator.BiUnique lines
  classes : List.Forall₂ (fun x c' => Revised u v lines (x.2.map Fit.final) x.1.toClass c') xs
    (ss'.map Site.toClass)

theorem forall₂_comp {α β γ : Type} {R : α → β → Prop} {S : β → γ → Prop} {as : List α} {bs : List β}
    {cs : List γ} (h : List.Forall₂ R as bs) (h' : List.Forall₂ S bs cs) :
    List.Forall₂ (Relation.Comp R S) as cs := by
  induction h generalizing cs with
  | nil =>
    cases h'
    exact .nil
  | cons hHere _ ih =>
    cases h' with
    | cons hNext hRest => exact .cons ⟨_, hHere, hNext⟩ (ih hRest)

/-- The patches of the classes after some others are a revision together. -/
theorem exists_revision (hParser : parser.Lawful) (h : Parsed parser u root)
    (hSites : root.sites 0 [] = pre ++ xs.map Prod.fst) (hInto : ∀ x ∈ xs, ∀ f ∈ x.2, f.Into x.1)
    {covered : Nat} (hPlaced : Patch.misplaced? u.lines.length covered (patchesOfFits xs) = none) :
    ∃ v lines root' ss', Revision parser u v xs lines root' ss' ∧ root'.sites 0 [] = pre ++ ss' ∧
      ∀ s ∈ pre, Revised u v lines none s.toClass s.toClass := by
  induction xs generalizing pre covered with
  | nil =>
    refine ⟨u, Eq, root, [], ⟨h, rfl, rfl, id, ?_, .nil⟩, hSites, fun s _ => .refl u s.toClass⟩
    exact ⟨fun _ _ _ h h' => h.trans h'.symm, fun _ _ _ h h' => h.symm.trans h'⟩
  | cons x xs ih =>
    obtain ⟨s, found⟩ := x
    obtain ⟨hHere, hLater⟩ := List.forall_mem_cons.mp hInto
    have hRest : root.sites 0 [] = (pre ++ [s]) ++ xs.map Prod.fst := by rw [hSites]; simp
    cases found with
    | none =>
      obtain ⟨v, lines, root', ss', hRevision, hSites', hBefore⟩ := ih hRest hLater hPlaced
      rw [List.append_assoc] at hSites'
      obtain ⟨hPre, hSame⟩ := List.forall_mem_append.mp hBefore
      exact ⟨v, lines, root', s :: ss', { hRevision with
        classes := .cons (hSame s List.mem_cons_self) hRevision.classes }, hSites', hPre⟩
    | some f =>
      have hAfter := (Patch.misplaced?_cons_eq_none_iff.mp hPlaced).2
      obtain ⟨v, lines, root', ss', hRevision, hSites', hBefore⟩ := ih hRest hLater hAfter
      rw [List.append_assoc] at hSites'
      obtain ⟨hPre, hSame⟩ := List.forall_mem_append.mp hBefore
      obtain ⟨w, lines', root'', s', ss'', hStep⟩ :=
        exists_step hParser hRevision.parsed hSites' (hHere f rfl)
      refine ⟨w, _, root'', s' :: ss'', ⟨hStep.parsed, hStep.encoding.trans hRevision.encoding, ?_,
        fun _ => hStep.ne_nil, biUnique_comp hRevision.biUnique hStep.biUnique, ?_⟩, hStep.sites, ?_⟩
      · rw [hStep.spliced, hRevision.spliced]
        exact (Patch.splice_cons hPlaced).symm
      · refine .cons ((hSame s List.mem_cons_self).trans hStep.here) ?_
        refine (forall₂_comp hRevision.classes hStep.below).imp ?_
        rintro y c' ⟨c, hFirst, hSecond⟩
        exact hFirst.keep hSecond
      · exact fun q hq => (hPre q hq).trans (hStep.above q hq)

/-- A class further down is patched further down. -/
theorem Fit.Into.start_le (hf : f.Into s) (hg : g.Into t) (hRegular : root.Regular) {P Q : List Site}
    (hSites : root.sites 0 [] = P ++ t :: Q) (hs : s ∈ P) : f.patch.start ≤ g.patch.start := by
  obtain ⟨_, _, _, _, _, _, hFills⟩ := hf.fills
  obtain ⟨_, _, _, _, _, _, hFills'⟩ := hg.fills
  obtain ⟨_, above, _, _, _, _, hBase, hRows, _⟩ := exists_refit_root hFills'.exchange
    (fun n hn => (hFills'.loose n hn).1) hFills'.before hRegular hSites
  have hRow : s.base + feeds s.before ≤ lineBreaks above := hRows s hs
  rw [hFills.before, feeds_before, feeds_of_text hf.whole hFills.text] at hRow
  change f.found.start ≤ g.found.start
  rw [hFills.start, hFills'.start]
  omega

theorem pairwise_patchesOfFits (hRegular : root.Regular) (hSites : root.sites 0 [] = pre ++ xs.map Prod.fst)
    (hInto : ∀ x ∈ xs, ∀ f ∈ x.2, f.Into x.1) :
    (patchesOfFits xs).Pairwise fun p q => p.start ≤ q.start := by
  rw [patchesOfFits, List.pairwise_filterMap]
  induction xs generalizing pre with
  | nil => exact .nil
  | cons x xs ih =>
    obtain ⟨hHere, hInto⟩ := List.forall_mem_cons.mp hInto
    have hRest : root.sites 0 [] = (pre ++ [x.1]) ++ xs.map Prod.fst := by rw [hSites]; simp
    refine .cons ?_ (ih hRest hInto)
    intro y hy p hp q hq
    obtain ⟨f, hf, rfl⟩ := Option.map_eq_some_iff.mp hp
    obtain ⟨g, hg, rfl⟩ := Option.map_eq_some_iff.mp hq
    obtain ⟨between, after, rfl⟩ := List.append_of_mem hy
    refine (hHere f hf).start_le (hInto y hy g hg) hRegular (P := pre ++ [x.1] ++ between.map Prod.fst)
      (Q := after.map Prod.fst) ?_ (by simp)
    rw [hRest]
    simp

/-- A file to which the patches of its classes have been applied is a revision of it. -/
theorem exists_revision_of_applyAll (hParser : parser.Lawful) (h : Parsed parser u root)
    (hSites : root.sites 0 [] = xs.map Prod.fst) (hInto : ∀ x ∈ xs, ∀ f ∈ x.2, f.Into x.1)
    (hApplied : Patch.applyAll u (patchesOfFits xs) = .ok v) :
    ∃ lines root', Revision parser u v xs lines root' (root'.sites 0 []) := by
  have hNone : root.sites 0 [] = [] ++ xs.map Prod.fst := hSites
  have hStarts := pairwise_patchesOfFits (hParser.regular h.accepts) hNone hInto
  obtain ⟨hPlaced, rfl⟩ := Patch.applyAll_eq_ok hStarts hApplied
  obtain ⟨w, lines, root', ss', hRevision, hSites', _⟩ := exists_revision hParser h hNone hInto hPlaced
  have hSame : w = { u with lines := Patch.splice 0 (patchesOfFits xs) u.lines } := by
    rw [← hRevision.spliced, ← hRevision.encoding]
  have hAll : root'.sites 0 [] = ss' := hSites'
  exact ⟨lines, root', hSame ▸ hAll ▸ hRevision⟩

end Splice

end Merge

end DocWiring
