import DocWiring.Proofs.DocBlock.Location
import DocWiring.Proofs.Php.Comment
import DocWiring.Proofs.Php.Parsing
import DocWiring.Proofs.Php.Refilled

/-! # Where the classes of a file stand

The row of a node counts the line feeds before it, and the lines of a file are cut at its line feeds.
So a class and both ends of its doc comment stand on the lines that the class names.
-/

namespace DocWiring

namespace SourceUnit

variable {u : SourceUnit} {n : Nat} {before piece after : List Char}

/-- The piece of the text after `before` stands on the line with number `n`. -/
def Shows (u : SourceUnit) (n : Nat) (before piece : List Char) : Prop :=
  ∃ above head tail below, u.lines = above ++ (head ++ piece ++ tail) :: below ∧
    above.length + 1 = n ∧ before = above.flatten ++ head

theorem shows_of_text (hCut : Line.AreCut u.lines) (hText : u.text = before ++ (piece ++ after))
    (hNil : piece ≠ []) (hFree : '\n' ∉ piece) : u.Shows (1 + Php.lineBreaks before) before piece := by
  obtain ⟨above, head, tail, below, hLines, hLength, hBefore⟩ := hCut.exists_line hText hNil hFree
  exact ⟨above, head, tail, below, hLines, by rw [hLength, Php.lineBreaks, Nat.add_comm], hBefore⟩

theorem Shows.line (h : u.Shows n before piece) : ∃ l, u.line? n = some l ∧ piece <:+: l := by
  obtain ⟨above, head, tail, below, hLines, rfl, _⟩ := h
  exact ⟨head ++ piece ++ tail, by rw [line?, hLines]; simp, head, tail, rfl⟩

theorem Shows.bounds (h : u.Shows n before piece) : 1 ≤ n ∧ n ≤ u.lines.length := by
  obtain ⟨above, head, tail, below, hLines, rfl, _⟩ := h
  simp [hLines]

end SourceUnit

namespace Php

variable {root : Node} {p : Place}

/-- The node of a place stands after the text with its line feeds. -/
theorem Place.exists_at (h : p = root.place ∨ p.Lies root) :
    ∃ before, root.At before p.node ∧ p.row = lineBreaks before := by
  rcases h with rfl | ⟨text, label, back, hAt, hBase⟩
  · exact ⟨[], .root, rfl⟩
  · refine ⟨_, hAt.part, ?_⟩
    rw [lineBreaks_append, Node.lineBreaks_textAll, feeds_reverse, row, hBase]

/-- A doc comment before a place is a comment of the tree. -/
theorem Place.exists_comment (h : p = root.place ∨ p.Lies root) {c : DocComment}
    (hDoc : leadingDoc? p.base p.before = some c) : ∃ before m, root.At before m ∧ m.isDoc = true ∧
      c.startLine = 1 + lineBreaks before ∧ c.endLine = c.startLine + lineBreaks m.text := by
  have hLeading := leading_leadingDoc? p.base p.before
  rw [hDoc] at hLeading
  generalize hBefore : p.before = siblings at hLeading
  cases hLeading with
  | @found near earlier m _ hm =>
    rcases h with rfl | ⟨text, label, back, hAt, hBase⟩
    · simp [Node.place] at hBefore
    · have hSplit : p.before.reverse ++ p.node :: back =
          earlier.reverse ++ m :: (near.reverse ++ p.node :: back) := by
        rw [hBefore]
        simp
      rw [hSplit] at hAt
      refine ⟨_, m, hAt.part, hm, ?_, ?_⟩
      · rw [lineBreaks_append, Node.lineBreaks_textAll, feeds_reverse, hBase]
        dsimp only
        omega
      · rw [feeds_cons]
        dsimp only
        omega

end Php

namespace DocBlock

variable {u : SourceUnit} {comment : DocComment} {cls : ClassNode}

theorem ofComment_ne_outside (hSpan : comment.startLine ≤ comment.endLine)
    (hFirst : ∃ l, u.line? comment.startLine = some l) (hLast : ∃ l, u.line? comment.endLine = some l)
    (n : Nat) : ofComment u comment ≠ .error (.format n .commentOutside) ∧
      ofComment u comment ≠ .error (.format n .classOutside) := by
  have hReads := reads_ofComment u comment
  generalize ofComment u comment = given at hReads
  cases hReads with
  | outside hMissing =>
    obtain ⟨first, hFirst⟩ := hFirst
    obtain ⟨last, hLast⟩ := hLast
    rw [hFirst, hLast] at hMissing
    simp at hMissing
    omega
  | refused hInside => simp [hInside]
  | found => simp

theorem blank_ne_outside (hLine : ∃ l, u.line? cls.startLine = some l) (n : Nat) :
    blank u cls.startLine ≠ .error (.format n .commentOutside) ∧
      blank u cls.startLine ≠ .error (.format n .classOutside) := by
  obtain ⟨l, hLine⟩ := hLine
  unfold blank
  simp [hLine]

/-- A class on lines of the file is never said to be outside it. -/
theorem locate_ne_outside (hLine : ∃ l, u.line? cls.startLine = some l)
    (hComment : ∀ c, cls.docComment = some c → c.startLine ≤ c.endLine ∧
      (∃ l, u.line? c.startLine = some l) ∧ ∃ l, u.line? c.endLine = some l) (n : Nat) :
    locate u cls ≠ .error (.format n .commentOutside) ∧
      locate u cls ≠ .error (.format n .classOutside) := by
  unfold locate
  split
  next c hc =>
    obtain ⟨hSpan, hFirst, hLast⟩ := hComment c hc
    exact ofComment_ne_outside hSpan hFirst hLast n
  next => exact blank_ne_outside hLine n

end DocBlock

namespace Merge

open DocBlock Php

variable {parser : SyntaxParser} {u : SourceUnit} {cls : ClassNode} {root : Node} {p : Place}

/-- A node of a tree the first character of which stands on the line with number `n`. -/
def StartsOn (u : SourceUnit) (root node : Node) (n : Nat) : Prop :=
  ∃ before c, root.At before node ∧ node.text.head? = some c ∧ u.Shows n before [c]

/-- A comment of a tree opens as a doc comment on the first of the lines and closes on the last one. -/
def IsComment (u : SourceUnit) (root : Node) (c : DocComment) : Prop :=
  ∃ before node body, root.At before node ∧ node.kind = "comment" ∧ node.text = body ++ closing ∧
    opening <+: node.text ∧ u.Shows c.startLine before opening ∧
    u.Shows c.endLine (before ++ body) closing

/-- A class and its doc comment stand on lines of the file. -/
structure Stands (parser : SyntaxParser) (u : SourceUnit) (cls : ClassNode) : Prop where
  inside : 1 ≤ cls.startLine ∧ cls.startLine ≤ u.lines.length
  declared : ∃ root p, parser.Accepts u.text root ∧ p ∈ root.places Node.isNamed 0 [] ∧
    p.class? = some cls ∧ StartsOn u root p.node cls.startLine ∧
    ∀ c, cls.docComment = some c → IsComment u root c
  comment : ∀ c, cls.docComment = some c → 1 ≤ c.startLine ∧ c.startLine ≤ c.endLine ∧
    c.endLine ≤ cls.startLine ∧ (∃ l, u.line? c.startLine = some l ∧ opening <:+: l) ∧
    ∃ l, u.line? c.endLine = some l ∧ closing <:+: l
  located : ∀ n, locate u cls ≠ .error (.format n .commentOutside) ∧
    locate u cls ≠ .error (.format n .classOutside)

theorem startsOn_of_at (hCut : Line.AreCut u.lines) (hText : root.text = u.text)
    (hRegular : root.Regular) {before : List Char} {node : Node} (hAt : root.At before node)
    (hClass : node.isClass = true) : StartsOn u root node (1 + lineBreaks before) := by
  obtain ⟨c, hHead, hSpace⟩ := (Option.any_eq_true _ _).mp ((hRegular node hAt.mem_nodes).start hClass)
  obtain ⟨rest, hNode⟩ := List.head?_eq_some_iff.mp hHead
  obtain ⟨after, hWhole⟩ := hAt.exists_text
  have hFree : '\n' ∉ [c] := by
    rw [List.mem_singleton]
    rintro rfl
    exact absurd hSpace (by decide)
  have hFirst : u.text = before ++ ([c] ++ (rest ++ after)) := by
    rw [← hText, hWhole, hNode]
    rfl
  exact ⟨before, c, hAt, hHead, SourceUnit.shows_of_text hCut hFirst (by simp) hFree⟩

theorem isComment_of_at (hCut : Line.AreCut u.lines) (hText : root.text = u.text)
    (hRegular : root.Regular) {before : List Char} {node : Node} (hAt : root.At before node)
    (hDoc : node.isDoc = true) {c : DocComment} (hFirst : c.startLine = 1 + lineBreaks before)
    (hLast : c.endLine = c.startLine + lineBreaks node.text) : IsComment u root c := by
  obtain ⟨hKind, hOpens⟩ := (Bool.and_eq_true _ _).mp hDoc
  rw [beq_iff_eq] at hKind
  obtain ⟨r, hNode⟩ := exists_of_isDocText hOpens
  have hCloses := (hRegular node hAt.mem_nodes).comment hKind
  rw [hNode] at hCloses
  obtain ⟨body, hBody, _⟩ := exists_body_of_closesLast hCloses
  have hSplit : node.text = '/' :: '*' :: body ++ closing := by
    rw [hNode, hBody]
    rfl
  obtain ⟨after, hWhole⟩ := hAt.exists_text
  rw [hText] at hWhole
  have hLine : c.endLine = 1 + lineBreaks (before ++ '/' :: '*' :: body) := by
    have hClosing : lineBreaks closing = 0 := by decide
    rw [hLast, hFirst, hSplit, lineBreaks_append, lineBreaks_append, hClosing]
    omega
  refine ⟨before, node, _, hAt, hKind, hSplit, hNode ▸ ⟨r, rfl⟩, ?_, ?_⟩
  · have hOpen : u.text = before ++ (opening ++ (r ++ after)) := by
      rw [hWhole, hNode]
      rfl
    exact hFirst ▸ SourceUnit.shows_of_text hCut hOpen (by decide) (by decide)
  · have hClose : u.text = before ++ '/' :: '*' :: body ++ (closing ++ after) := by
      rw [hWhole, hSplit]
      simp
    exact hLine ▸ SourceUnit.shows_of_text hCut hClose (by decide) (by decide)

theorem StartsOn.bounds (h : StartsOn u root node n) : 1 ≤ n ∧ n ≤ u.lines.length := by
  obtain ⟨_, _, _, _, hShows⟩ := h
  exact hShows.bounds

theorem StartsOn.line (h : StartsOn u root node n) : ∃ l, u.line? n = some l := by
  obtain ⟨_, _, _, _, hShows⟩ := h
  exact hShows.line.imp fun _ hl => hl.1

theorem stands_of_class? (hParser : parser.Faithful) (hCut : Line.AreCut u.lines)
    (hAccepts : parser.Accepts u.text root) (hPlace : p ∈ root.places Node.isNamed 0 [])
    (hClass : p.class? = some cls) : Stands parser u cls := by
  have hText := hParser.text_eq hAccepts
  have hRegular := hParser.regular hAccepts
  have hLies := Node.eq_or_lies_of_mem hPlace
  obtain ⟨heading, hHeading, rfl⟩ := Option.map_eq_some_iff.mp hClass
  have hNode : p.node.isClass = true := by
    by_contra hNot
    rw [Node.heading?_of_kind (by simpa [Node.isClass] using hNot)] at hHeading
    cases hHeading
  obtain ⟨before, hAt, hRow⟩ := Place.exists_at hLies
  have hStarts := startsOn_of_at hCut hText hRegular hAt hNode
  rw [← hRow, Nat.add_comm] at hStarts
  have hComment (c : DocComment) (hc : leadingDoc? p.base p.before = some c) :
      IsComment u root c := by
    obtain ⟨_, _, hAtComment, hDoc, hFirst, hLast⟩ := Place.exists_comment hLies hc
    exact isComment_of_at hCut hText hRegular hAtComment hDoc hFirst hLast
  have hSpan (c : DocComment) (hc : leadingDoc? p.base p.before = some c) : 1 ≤ c.startLine ∧
      c.startLine ≤ c.endLine ∧ c.endLine ≤ p.row + 1 ∧
      (∃ l, u.line? c.startLine = some l ∧ opening <:+: l) ∧
      ∃ l, u.line? c.endLine = some l ∧ closing <:+: l := by
    obtain ⟨_, hOrder, hAbove⟩ := bounds_of_leadingDoc? hc
    obtain ⟨_, _, _, _, _, _, _, hOpen, hClose⟩ := hComment c hc
    exact ⟨hOpen.bounds.1, hOrder, hAbove, hOpen.line, hClose.line⟩
  refine ⟨hStarts.bounds, ⟨root, p, hAccepts, hPlace, hClass, hStarts, hComment⟩, hSpan, ?_⟩
  refine locate_ne_outside hStarts.line fun c hc => ?_
  obtain ⟨_, hOrder, _, hOpen, hClose⟩ := hSpan c hc
  exact ⟨hOrder, hOpen.imp fun _ hl => hl.1, hClose.imp fun _ hl => hl.1⟩

/-- The classes of a file that has been read come in the order of their lines, and they stand on lines of
the file. -/
theorem stands_of_classes {path : Path} {cs : List ClassNode} (hParser : parser.Faithful)
    (hRead : u.IsRead) (hClasses : parser.classes path u = .ok cs) :
    (cs.Pairwise fun c c' => c.startLine ≤ c'.startLine) ∧ ∀ cls ∈ cs, Stands parser u cls := by
  obtain ⟨root, hAccepts, rfl⟩ := SyntaxParser.classes_eq_ok_iff.mp hClasses
  rw [Node.classes_eq]
  constructor
  · rw [List.pairwise_filterMap]
    refine (Node.pairwise_places root 0 []).imp ?_
    intro p q hRow c hc c' hc'
    obtain ⟨_, _, rfl⟩ := Option.map_eq_some_iff.mp hc
    obtain ⟨_, _, rfl⟩ := Option.map_eq_some_iff.mp hc'
    exact Nat.succ_le_succ hRow
  · intro cls hMem
    obtain ⟨p, hPlace, hClass⟩ := List.mem_filterMap.mp hMem
    exact stands_of_class? hParser hRead.areCut hAccepts hPlace hClass

/-- Ends of line of both kinds and a lone carriage return, a class in a method, and a last line without
an end. -/
def mixedText : List Char :=
  "<?php\r\n\r/** One.\r\n * More. */\n#[A(1)] final\nclass One \x7b\n".toList ++
    "function f() \x7b /** Two. */ class Two \x7b\x7d \x7d \x7d\n\n".toList ++
    "abstract /* x */ class Three extends One \x7b\x7d".toList

def mixedClasses : List ClassNode :=
  [{ name := "One", parent := none, startLine := 4, docComment := some ⟨2, 3⟩, attributes := [] },
    { name := "Two", parent := none, startLine := 6, docComment := some ⟨6, 6⟩, attributes := [] },
    { name := "Three", parent := some "One", startLine := 8, docComment := none, attributes := [] }]

theorem stands_of_classes_mixed :
    (SourceUnit.ofText mixedText).IsRead ∧
    Php.classes ⟨"a.php"⟩ (SourceUnit.ofText mixedText) = .ok mixedClasses ∧
    (mixedClasses.Pairwise fun c c' => c.startLine ≤ c'.startLine) ∧
    ∀ cls ∈ mixedClasses, Stands Php.parser (SourceUnit.ofText mixedText) cls := by
  have hRead : (SourceUnit.ofText mixedText).IsRead := .inl ⟨mixedText, rfl⟩
  have hClasses : Php.classes ⟨"a.php"⟩ (SourceUnit.ofText mixedText) = .ok mixedClasses := by
    decide +kernel
  exact ⟨hRead, hClasses, stands_of_classes Php.parser_lawful.toFaithful hRead hClasses⟩

end Merge

end DocWiring
