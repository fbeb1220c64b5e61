import DocWiring.Proofs.Php.Refilled

/-! # Room for a block before a class

A class stands alone if a block can be put before it on lines of its own, or if its doc comment has
lines of its own there.
-/

namespace DocWiring.Php

/-- White space with an end of line in it. -/
def Node.breaksLine : Node → Bool
  | .gap text => text.all isSpace && text.contains '\n'
  | _ => false

/-- The nearest doc comment, if any, has white space with an end of line on both sides.  Without one, the
last end of line before the class, nearest node first, is one of white space. -/
def leavesLines (before : List Node) : Bool :=
  let near := before.takeWhile fun n => n.isLoose && !n.isDoc
  let ends := (near.find? fun n => n.text.contains '\n').any Node.breaksLine
  match before.dropWhile (fun n => n.isLoose && !n.isDoc) with
  | [] => ends
  | n :: beyond =>
    if n.isLoose then near.getLast?.any Node.breaksLine && beyond.head?.any Node.breaksLine
    else n.kind != "comment" && ends

/-- Nothing but white space and comments shares a line with what precedes the class, be it its doc
comment or the place of one. -/
def SyntaxParser.standsAlone (parser : SyntaxParser) (u : SourceUnit) (cls : ClassNode) : Bool :=
  match parser.parse u.text with
  | some root => (root.sites 0 []).all fun s => s.toClass != cls || leavesLines s.before
  | none => true

/-- White space with an end of line, after which no other comes.  There is no doc comment. -/
structure Bare (before front near : List Node) (x y : List Char) : Prop where
  split : before = near.reverse ++ .gap (x ++ '\n' :: y) :: front.reverse
  white : ∀ c ∈ x ++ y, isSpace c = true
  last : '\n' ∉ y ++ Node.textAll near
  loose : ∀ n ∈ near, n.isLoose = true ∧ n.isDoc = false
  missing : ∀ base, leadingDoc? base before = none

/-- White space with an end of line on both sides of the nearest doc comment. -/
structure Around (before front near : List Node) (x z t y text : List Char) : Prop where
  split : before = near.reverse ++
    .gap (t ++ '\n' :: y) :: .leaf .comment text :: .gap (x ++ '\n' :: z) :: front.reverse
  white : ∀ c ∈ x ++ z ++ (t ++ y), isSpace c = true
  above : '\n' ∉ z
  below : '\n' ∉ t
  doc : isDocText text = true
  loose : ∀ n ∈ near, n.isLoose = true ∧ n.isDoc = false

inductive Room (before : List Node) : Prop
  | bare {front near : List Node} {x y : List Char} (h : Bare before front near x y)
  | around {front near : List Node} {x z t y text : List Char}
      (h : Around before front near x z t y text)

theorem exists_last_feed {t : List Char} (h : '\n' ∈ t) :
    ∃ x y, t = x ++ '\n' :: y ∧ '\n' ∉ y := by
  obtain ⟨y, x, hReverse, hy⟩ := List.eq_append_cons_of_mem (List.mem_reverse.mpr h)
  refine ⟨x.reverse, y.reverse, ?_, by simpa using hy⟩
  rw [← List.reverse_reverse t, hReverse]
  simp

theorem Node.exists_of_breaksLine {n : Node} (h : n.breaksLine = true) :
    ∃ t, n = .gap t ∧ (∀ c ∈ t, isSpace c = true) ∧ '\n' ∈ t := by
  cases n with
  | gap t =>
    simp only [breaksLine, Bool.and_eq_true, List.all_eq_true, List.contains_iff_mem] at h
    exact ⟨t, rfl, h⟩
  | leaf | branch => cases h

theorem Node.exists_of_isLoose_isDoc {n : Node} (h : n.isLoose = true) (hDoc : n.isDoc = true) :
    ∃ text, n = .leaf .comment text ∧ isDocText text = true := by
  cases n with
  | gap => cases hDoc
  | leaf label text =>
    obtain rfl : label = Label.comment := by simpa [isLoose] using h
    exact ⟨text, rfl, ((Bool.and_eq_true _ _).mp hDoc).2⟩
  | branch => cases h

/-- There is room around a doc comment with an end of line in white space on both sides. -/
theorem room_around {near beyond : List Node} {s d b : Node} (hAfter : s.breaksLine = true)
    (hLoose : d.isLoose = true) (hDoc : d.isDoc = true) (hBefore : b.breaksLine = true)
    (hNear : ∀ n ∈ near, n.isLoose = true ∧ n.isDoc = false) : Room (near ++ s :: d :: b :: beyond) := by
  obtain ⟨_, rfl, hsSpace, hsFeed⟩ := Node.exists_of_breaksLine hAfter
  obtain ⟨_, rfl, hbSpace, hbFeed⟩ := Node.exists_of_breaksLine hBefore
  obtain ⟨text, rfl, hText⟩ := Node.exists_of_isLoose_isDoc hLoose hDoc
  obtain ⟨t, y, rfl, ht⟩ := List.eq_append_cons_of_mem hsFeed
  obtain ⟨x, z, rfl, hz⟩ := exists_last_feed hbFeed
  have hSplit : near ++ .gap (t ++ '\n' :: y) :: .leaf .comment text :: .gap (x ++ '\n' :: z) :: beyond =
      near.reverse.reverse ++ .gap (t ++ '\n' :: y) :: .leaf .comment text ::
        .gap (x ++ '\n' :: z) :: beyond.reverse.reverse := by simp
  refine .around ⟨hSplit, ?_, hz, ht, hText, fun n hn => hNear n (List.mem_reverse.mp hn)⟩
  intro c hc
  rcases List.mem_append.mp hc with hc | hc
  · exact hbSpace c (((List.sublist_cons_self _ _).append_left _).subset hc)
  · exact hsSpace c (((List.sublist_cons_self _ _).append_left _).subset hc)

theorem feeds_eq_zero {ns : List Node} (h : ∀ n ∈ ns, (!n.text.contains '\n') = true) : feeds ns = 0 := by
  induction ns with
  | nil => rfl
  | cons n ns ih =>
    obtain ⟨hn, hRest⟩ := List.forall_mem_cons.mp h
    rw [feeds_cons, ih hRest, lineBreaks_eq_zero (by simpa using hn)]

/-- Without a doc comment, there is room at the last end of line if it is one of white space. -/
theorem room_bare {near rest : List Node}
    (hEnds : (near.find? fun n => n.text.contains '\n').any Node.breaksLine = true)
    (hNear : ∀ n ∈ near, n.isLoose = true ∧ n.isDoc = false)
    (hMissing : ∀ base, leadingDoc? base rest = none) : Room (near ++ rest) := by
  obtain ⟨n, hFound, hBreaks⟩ := (Option.any_eq_true _ _).mp hEnds
  obtain ⟨_, after, before, rfl, hAfter⟩ := List.find?_eq_some_iff_append.mp hFound
  obtain ⟨_, rfl, hSpace, hFeed⟩ := Node.exists_of_breaksLine hBreaks
  obtain ⟨x, y, rfl, hy⟩ := exists_last_feed hFeed
  have hNone : lineBreaks (Node.textAll after.reverse) = 0 := by
    rw [Node.lineBreaks_textAll, feeds_reverse, feeds_eq_zero hAfter]
  have hLast : '\n' ∉ y ++ Node.textAll after.reverse := by
    rw [List.mem_append, not_or]
    exact ⟨hy, List.count_eq_zero.mp hNone⟩
  have hNearest : ∀ n ∈ after.reverse, n.isLoose = true ∧ n.isDoc = false :=
    fun n hn => hNear n (List.mem_append_left _ (List.mem_reverse.mp hn))
  have hWhite : ∀ c ∈ x ++ y, isSpace c = true :=
    fun c hc => hSpace c (((List.sublist_cons_self _ _).append_left _).subset hc)
  have hSplit : after ++ .gap (x ++ '\n' :: y) :: before ++ rest =
      after.reverse.reverse ++ .gap (x ++ '\n' :: y) :: (before ++ rest).reverse.reverse := by simp
  refine .bare ⟨hSplit, hWhite, hLast, hNearest, fun base => ?_⟩
  rw [leadingDoc?_append_loose hNear, hMissing]

theorem room_of_leavesLines {before : List Node} (h : leavesLines before = true) : Room before := by
  have hSplit := (List.takeWhile_append_dropWhile (p := fun n : Node => n.isLoose && !n.isDoc)
    (l := before)).symm
  have hNear : ∀ n ∈ before.takeWhile fun n => n.isLoose && !n.isDoc,
      n.isLoose = true ∧ n.isDoc = false := by
    intro n hn
    simpa using List.mem_takeWhile_imp hn
  unfold leavesLines at h
  dsimp only at h
  rw [hSplit]
  generalize before.takeWhile _ = near at h hNear ⊢
  generalize hRest : before.dropWhile _ = rest at h ⊢
  split at h
  next => exact room_bare h hNear fun base => rfl
  next n beyond =>
    have hStop := List.head?_dropWhile_not (fun n : Node => n.isLoose && !n.isDoc) before
    rw [hRest, List.head?_cons] at hStop
    split at h
    next hLoose =>
      obtain ⟨hAfter, hBefore⟩ := (Bool.and_eq_true _ _).mp h
      obtain ⟨s, hs, hsBreaks⟩ := (Option.any_eq_true _ _).mp hAfter
      obtain ⟨b, hb, hbBreaks⟩ := (Option.any_eq_true _ _).mp hBefore
      obtain ⟨near, rfl⟩ := List.getLast?_eq_some_iff.mp hs
      obtain ⟨beyond, rfl⟩ := List.head?_eq_some_iff.mp hb
      have hDoc : n.isDoc = true := by simpa [hLoose] using hStop
      rw [List.append_assoc]
      exact room_around hsBreaks hLoose hDoc hbBreaks fun m hm => hNear m (List.mem_append_left _ hm)
    next hSolid =>
      obtain ⟨hKind, hEnds⟩ := (Bool.and_eq_true _ _).mp h
      have hNode : n.isNode = true := by
        cases n with
        | gap => exact absurd rfl hSolid
        | leaf | branch => rfl
      exact room_bare hEnds hNear fun base => leadingDoc?_cons_other hNode (by simpa using hKind) base beyond

end DocWiring.Php
