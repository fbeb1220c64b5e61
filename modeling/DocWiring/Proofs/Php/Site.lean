import DocWiring.Proofs.DocBlock.Relocation
import DocWiring.Proofs.Php.Places

/-! # Where the classes of a tree stand

The line of a class and its doc comment depend on what stands before it among its siblings, and on the
row on which the node around them starts.  They depend on the siblings no further than back to the last
one that is no comment.
-/

namespace DocWiring.Php

/-- The label of a comment, wherever it stands. -/
def Label.comment : Label where
  kind := "comment"
  named := true

namespace Node

/-- A gap or a comment. -/
def isLoose : Node → Bool
  | gap _ => true
  | leaf label _ => label == Label.comment
  | branch _ _ => false

def isDoc (n : Node) : Bool :=
  n.kind == "comment" && isDocText n.text

theorem isNode_of_kind {n : Node} {kind : String} (h : n.kind = kind) (hKind : kind ≠ "") :
    n.isNode = true := by
  cases n with
  | gap => exact absurd h.symm hKind
  | leaf | branch => rfl

theorem kind_of_isLoose {n : Node} (h : n.isLoose = true) : n.kind = "" ∨ n.kind = "comment" := by
  cases n with
  | gap => exact .inl rfl
  | leaf label =>
    obtain rfl : label = Label.comment := by simpa [isLoose] using h
    exact .inr rfl
  | branch => cases h

end Node

/-! ## The doc comment before a node -/

section LeadingDoc

variable {base k : Nat} {before later earlier near : List Node} {m n : Node} {c : DocComment}

theorem leadingDoc?_cons_doc (h : n.isDoc = true) (base : Nat) (before : List Node) :
    leadingDoc? base (n :: before) =
      some ⟨base + feeds before + 1, base + feeds (n :: before) + 1⟩ := by
  obtain ⟨hKind, hText⟩ := (Bool.and_eq_true _ _).mp h
  rw [beq_iff_eq] at hKind
  rw [leadingDoc?, if_pos (Node.isNode_of_kind hKind (by decide)), if_neg (by simp [hKind]), if_pos hText]

theorem leadingDoc?_cons_loose (h : n.isLoose = true) (hDoc : n.isDoc = false) (base : Nat)
    (before : List Node) : leadingDoc? base (n :: before) = leadingDoc? base before := by
  cases n with
  | gap => rfl
  | leaf label text =>
    obtain rfl : label = Label.comment := by simpa [Node.isLoose] using h
    have hText : isDocText text = false := hDoc
    rw [leadingDoc?, Node.text, hText]
    rfl
  | branch => cases h

theorem leadingDoc?_cons_other (h : n.isNode = true) (hKind : n.kind ≠ "comment") (base : Nat)
    (before : List Node) : leadingDoc? base (n :: before) = none := by
  rw [leadingDoc?, if_pos h, if_pos (by simpa using hKind)]

theorem leadingDoc?_append_loose (h : ∀ n ∈ near, n.isLoose = true ∧ n.isDoc = false) (base : Nat)
    (before : List Node) : leadingDoc? base (near ++ before) = leadingDoc? base before := by
  induction near with
  | nil => rfl
  | cons n near ih =>
    obtain ⟨hn, hNear⟩ := List.forall_mem_cons.mp h
    rw [List.cons_append, leadingDoc?_cons_loose hn.1 hn.2, ih hNear]

/-- What the nearest doc comment comes to, whether there is one or not. -/
inductive Leading (base : Nat) : List Node → Option DocComment → Prop where
  | found {near earlier : List Node} {m : Node}
    (comments : ∀ n ∈ near, n.isNode = true → n.kind = "comment") (doc : m.isDoc = true) :
    Leading base (near ++ m :: earlier)
      (some ⟨base + feeds earlier + 1, base + feeds (m :: earlier) + 1⟩)
  | missing {before : List Node} : Leading base before none

theorem leading_leadingDoc? (base : Nat) (before : List Node) :
    Leading base before (leadingDoc? base before) := by
  induction before with
  | nil => exact .missing
  | cons n before ih =>
    have hCons (hKind : n.isNode = true → n.kind = "comment") :
        Leading base (n :: before) (leadingDoc? base before) := by
      generalize leadingDoc? base before = given at ih
      cases ih with
      | found hNear hDoc =>
        rw [← List.cons_append]
        exact .found (List.forall_mem_cons.mpr ⟨hKind, hNear⟩) hDoc
      | missing => exact .missing
    unfold leadingDoc?
    by_cases hNode : n.isNode = true
    · by_cases hKind : n.kind = "comment"
      · rw [if_pos hNode, if_neg (by simp [hKind])]
        split
        next hText =>
          have hNone : ∀ m ∈ ([] : List Node), m.isNode = true → m.kind = "comment" := by simp
          exact .found hNone (by simp [Node.isDoc, hKind, hText])
        next => exact hCons fun _ => hKind
      · rw [if_pos hNode, if_pos (by simpa using hKind)]
        exact .missing
    · rw [if_neg hNode]
      exact hCons fun h => absurd h hNode

theorem bounds_of_leadingDoc? (h : leadingDoc? base before = some c) :
    base + 1 ≤ c.startLine ∧ c.startLine ≤ c.endLine ∧ c.endLine ≤ base + feeds before + 1 := by
  have hLeading := leading_leadingDoc? base before
  rw [h] at hLeading
  cases hLeading with
  | found =>
    simp only [feeds_append, feeds_cons]
    omega

/-- What stands before a node that is no comment does not matter, but for its line feeds. -/
theorem leadingDoc?_cut (hNode : m.isNode = true) (hKind : m.kind ≠ "comment") (base : Nat)
    (later earlier : List Node) : leadingDoc? base (later ++ m :: earlier) =
      leadingDoc? (base + feeds (m :: earlier)) later := by
  induction later with
  | nil => exact leadingDoc?_cons_other hNode hKind base earlier
  | cons n later ih =>
    have hFeeds (ns : List Node) :
        base + feeds (ns ++ m :: earlier) = base + feeds (m :: earlier) + feeds ns := by
      rw [feeds_append]
      omega
    rw [List.cons_append, leadingDoc?, leadingDoc?, ih, ← List.cons_append, hFeeds, hFeeds]

theorem leadingDoc?_down (base k : Nat) (before : List Node) :
    leadingDoc? (base + k) before = (leadingDoc? base before).map (DocComment.down k) := by
  induction before with
  | nil => rfl
  | cons n before ih =>
    rw [leadingDoc?, leadingDoc?, ih]
    split
    · split
      · rfl
      · split
        · simp only [Option.map_some, DocComment.down, Option.some.injEq, DocComment.mk.injEq]
          omega
        · rfl
    · rfl

end LeadingDoc

/-! ## Sites -/

/-- A class declaration among its siblings. -/
structure Site where
  base : Nat
  before : List Node
  heading : Heading

namespace Site

def row (s : Site) : Nat :=
  s.base + feeds s.before

def toClass (s : Site) : ClassNode where
  name := s.heading.name
  parent := s.heading.parent
  startLine := s.row + 1
  docComment := leadingDoc? s.base s.before
  attributes := s.heading.attributes

/-- The site `k` lines further down. -/
def shift (k : Nat) (s : Site) : Site :=
  { s with base := s.base + k }

theorem toClass_shift (k : Nat) (s : Site) : (s.shift k).toClass = s.toClass.down k := by
  have hRow : s.base + k + feeds s.before + 1 = s.base + feeds s.before + 1 + k := by omega
  simp only [toClass, shift, row, ClassNode.down, leadingDoc?_down, hRow]

theorem shift_shift (j k : Nat) (s : Site) : (s.shift j).shift k = s.shift (j + k) := by
  rw [shift, shift, shift, Nat.add_assoc]

theorem docComment_pos (s : Site) {c : DocComment} (h : s.toClass.docComment = some c) :
    0 < c.startLine := by
  have hBounds := bounds_of_leadingDoc? h
  omega

theorem endLine_le (s : Site) {c : DocComment} (h : s.toClass.docComment = some c) :
    c.endLine ≤ s.toClass.startLine :=
  (bounds_of_leadingDoc? h).2.2

theorem toClass_cut {m : Node} (hNode : m.isNode = true) (hKind : m.kind ≠ "comment") (base : Nat)
    (later earlier : List Node) (heading : Heading) :
    (Site.mk base (later ++ m :: earlier) heading).toClass =
      (Site.mk (base + feeds (m :: earlier)) later heading).toClass := by
  have hRow : base + feeds (later ++ m :: earlier) = base + feeds (m :: earlier) + feeds later := by
    rw [feeds_append]
    omega
  simp only [toClass, row, leadingDoc?_cut hNode hKind, hRow]

end Site

def Place.site? (p : Place) : Option Site :=
  p.node.heading?.map (Site.mk p.base p.before)

theorem Place.class?_eq (p : Place) : p.class? = p.site?.map Site.toClass := by
  rw [class?, site?, Option.map_map]
  rfl

namespace Node

def sites (base : Nat) (before : List Node) (n : Node) : List Site :=
  (n.places isNamed base before).filterMap Place.site?

def sitesAll (base : Nat) (before ns : List Node) : List Site :=
  (placesAll isNamed base before ns).filterMap Place.site?

variable {base : Nat} {before : List Node}

theorem map_toClass_sites (root : Node) : (root.sites 0 []).map Site.toClass = root.classes := by
  rw [classes_eq, sites, List.map_filterMap]
  exact List.filterMap_congr fun p _ => p.class?_eq.symm

theorem sites_eq (n : Node) : n.sites base before =
    (n.heading?.map (Site.mk base before)).toList ++ sitesAll (base + feeds before) [] n.parts := by
  rw [sites, places_eq, List.filterMap_cons, Place.site?, sitesAll]
  cases n.heading? <;> rfl

theorem sitesAll_cons (n : Node) (ns : List Node) : sitesAll base before (n :: ns) =
    (if n.isNamed then n.sites base before else []) ++ sitesAll base (n :: before) ns := by
  rw [sitesAll, placesAll, List.filterMap_append]
  split <;> rfl

theorem sitesAll_append (ms ns : List Node) : sitesAll base before (ms ++ ns) =
    sitesAll base before ms ++ sitesAll base (ms.reverse ++ before) ns := by
  rw [sitesAll, placesAll_append, List.filterMap_append]
  rfl

theorem heading?_of_kind {n : Node} (h : n.kind ≠ "class_declaration") : n.heading? = none := by
  rw [heading?, if_neg (by simpa using h)]

theorem sites_of_isLoose {n : Node} (h : n.isLoose = true) : n.sites base before = [] := by
  have hKind : n.kind ≠ "class_declaration" := by
    rcases kind_of_isLoose h with hKind | hKind <;> simp [hKind]
  have hParts : n.parts = [] := by
    cases n with
    | gap | leaf => rfl
    | branch => cases h
  rw [sites_eq, heading?_of_kind hKind, hParts]
  rfl

/-- No class is declared in gaps and comments. -/
theorem sitesAll_of_isLoose {ns : List Node} (h : ∀ n ∈ ns, n.isLoose = true) :
    sitesAll base before ns = [] := by
  induction ns generalizing before with
  | nil => rfl
  | cons n ns ih =>
    obtain ⟨hn, hRest⟩ := List.forall_mem_cons.mp h
    rw [sitesAll_cons, sites_of_isLoose hn, ih hRest]
    split <;> rfl

mutual

theorem sites_shift (k : Nat) : (n : Node) → (base : Nat) → (before : List Node) →
    n.sites (base + k) before = (n.sites base before).map (Site.shift k)
  | gap _, _, _ => rfl
  | leaf label text, base, before => by
    rw [sites_eq, sites_eq, List.map_append, ← Option.toList_map, Option.map_map]
    rfl
  | branch label ns, base, before => by
    rw [sites_eq, sites_eq, List.map_append, ← Option.toList_map, Option.map_map, parts,
      ← sitesAll_shift k ns, Nat.add_right_comm]
    rfl

theorem sitesAll_shift (k : Nat) : (ns : List Node) → (base : Nat) → (before : List Node) →
    sitesAll (base + k) before ns = (sitesAll base before ns).map (Site.shift k)
  | [], _, _ => rfl
  | n :: ns, base, before => by
    rw [sitesAll_cons, sitesAll_cons, List.map_append, sitesAll_shift k ns]
    split
    · rw [sites_shift k n]
    · rfl

end

/-- The classes after a node that is no comment do not depend on what stands before it, but for its line
feeds. -/
theorem classes_sitesAll_cut {m : Node} (hNode : m.isNode = true) (hKind : m.kind ≠ "comment")
    (base : Nat) (later earlier ns : List Node) :
    (sitesAll base (later ++ m :: earlier) ns).map Site.toClass =
      (sitesAll (base + feeds (m :: earlier)) later ns).map Site.toClass := by
  induction ns generalizing later with
  | nil => rfl
  | cons n ns ih =>
    have hFeeds : base + feeds (later ++ m :: earlier) = base + feeds (m :: earlier) + feeds later := by
      rw [feeds_append]
      omega
    rw [sitesAll_cons, sitesAll_cons, List.map_append, List.map_append, ← List.cons_append, ih]
    congr 1
    split
    · rw [sites_eq, sites_eq, List.map_append, List.map_append, hFeeds, ← Option.toList_map,
        ← Option.toList_map, Option.map_map, Option.map_map]
      congr 2
      cases n.heading? with
      | none => rfl
      | some heading => exact congrArg some (Site.toClass_cut hNode hKind base later earlier heading)
    · rfl

theorem mem_sites_iff {s : Site} {root : Node} : s ∈ root.sites 0 [] ↔
    ∃ p ∈ root.places isNamed 0 [], p.node.heading? = some s.heading ∧ p.base = s.base ∧
      p.before = s.before := by
  rw [sites, List.mem_filterMap]
  refine exists_congr fun p => and_congr_right fun _ => ?_
  rw [Place.site?, Option.map_eq_some_iff]
  constructor
  · rintro ⟨heading, hHeading, rfl⟩
    exact ⟨hHeading, rfl, rfl⟩
  · rintro ⟨hHeading, hBase, hBefore⟩
    exact ⟨_, hHeading, by rw [hBase, hBefore]⟩

end Node

end DocWiring.Php
