import DocWiring.Proofs.DocBlock.Sealed
import DocWiring.Proofs.Php.Site

/-! # A comment before a class

Comments may stand wherever white space does, and they end no node and begin none.  So when a block
comment comes into the white space before a class, or takes the place of one there, the tree is the one
it was but for the comment.
-/

namespace DocWiring.Php

open DocBlock (closing Unclosed)

/-- White space with an end of line, or with a block comment on lines of its own, and the white space
with the new comment that takes its place.  What comes before the first end of line stays, and what
comes after the last one. -/
inductive Exchange : List Node → List Node → Prop where
  | put {x y z t body : List Char} (white : ∀ c ∈ x ++ y ++ (z ++ t), isSpace c = true)
    (unclosed : Unclosed body) :
    Exchange [.gap (x ++ '\n' :: y)]
      [.gap (x ++ '\n' :: z), .leaf .comment ('/' :: '*' :: (body ++ closing)), .gap (t ++ '\n' :: y)]
  | swap {x y z t z' t' old body : List Char}
    (white : ∀ c ∈ x ++ y ++ (z ++ t) ++ (z' ++ t'), isSpace c = true)
    (opened : "/*".toList <+: old) (unclosed : Unclosed body) :
    Exchange [.gap (x ++ '\n' :: z), .leaf .comment old, .gap (t ++ '\n' :: y)]
      [.gap (x ++ '\n' :: z'), .leaf .comment ('/' :: '*' :: (body ++ closing)), .gap (t' ++ '\n' :: y)]

/-- The second tree is the first one with another filling of the white space before a class. -/
inductive Refilled : Node → Node → Prop where
  | here {label : Label} {front old new near back : List Node} {child : Node}
    (exchange : Exchange old new) (loose : ∀ n ∈ near, n.isLoose = true)
    (declares : child.isClass = true) :
    Refilled (.branch label (front ++ (old ++ (near ++ child :: back))))
      (.branch label (front ++ (new ++ (near ++ child :: back))))
  | inside {label : Label} {front back : List Node} {child child' : Node}
    (inner : Refilled child child') (named : child.isNamed = true) :
    Refilled (.branch label (front ++ child :: back)) (.branch label (front ++ child' :: back))

namespace SyntaxParser

variable {parser : SyntaxParser} {text : List Char} {root root' : Node}

/-- The text is parsed to this tree without a fault. -/
structure Accepts (parser : SyntaxParser) (text : List Char) (root : Node) : Prop where
  ready : parser.refusal? = none
  parsed : parser.parse text = some root
  faultless : root.hasFault = false

/-- The trees of a parser have the whole text in them and follow the grammar. -/
structure Faithful (parser : SyntaxParser) : Prop where
  text_eq : ∀ {text root}, parser.Accepts text root → root.text = text
  regular : ∀ {text root}, parser.Accepts text root → root.Regular

/-- A comment that comes into the white space before a class changes nothing else. -/
structure Lawful (parser : SyntaxParser) : Prop extends Faithful parser where
  refilled : ∀ {text root root'}, parser.Accepts text root → Refilled root root' →
    parser.parse root'.text = some root'

theorem classes_eq_ok_iff {path : Path} {u : SourceUnit} {cs : List ClassNode} :
    parser.classes path u = .ok cs ↔ ∃ root, parser.Accepts u.text root ∧ cs = root.classes := by
  unfold classes
  constructor
  · intro h
    split at h
    next => cases h
    next hReady =>
      split at h
      next => cases h
      next root hParsed =>
        split at h
        next => cases h
        next hFault => exact ⟨root, ⟨hReady, hParsed, by simpa using hFault⟩, (Except.ok.inj h).symm⟩
  · rintro ⟨root, h, rfl⟩
    simp [h.ready, h.parsed, h.faultless]

end SyntaxParser

namespace Exchange

variable {old new : List Node}

theorem isLoose_old (h : Exchange old new) : ∀ n ∈ old, n.isLoose = true := by
  cases h <;> simp [Node.isLoose]

theorem isLoose_new (h : Exchange old new) : ∀ n ∈ new, n.isLoose = true := by
  cases h <;> simp [Node.isLoose]

theorem old_ne_nil (h : Exchange old new) : old ≠ [] := by
  cases h <;> simp

/-- Both fillings begin with the same text up to an end of line. -/
theorem exists_text (h : Exchange old new) : ∃ x r r', (∀ c ∈ x, isSpace c = true) ∧
    Node.textAll old = x ++ '\n' :: r ∧ Node.textAll new = x ++ '\n' :: r' := by
  cases h with
  | @put x y z t body hWhite =>
    exact ⟨x, _, _, fun c hc => hWhite c (by simp [hc]), by simp [Node.text]; rfl, by simp [Node.text]; rfl⟩
  | @swap x y z t z' t' old body hWhite =>
    exact ⟨x, _, _, fun c hc => hWhite c (by simp [hc]), by simp [Node.text]; rfl, by simp [Node.text]; rfl⟩

end Exchange

namespace Node

theorem anyFault_append (ms ns : List Node) : anyFault (ms ++ ns) = (anyFault ms || anyFault ns) := by
  induction ms with
  | nil => rfl
  | cons m ms ih => rw [List.cons_append, anyFault, anyFault, ih, Bool.or_assoc]

theorem anyFault_of_isLoose {ns : List Node} (h : ∀ n ∈ ns, n.isLoose = true) : anyFault ns = false := by
  induction ns with
  | nil => rfl
  | cons n ns ih =>
    obtain ⟨hn, hRest⟩ := List.forall_mem_cons.mp h
    have hNone : n.hasFault = false := by
      cases n with
      | gap => rfl
      | leaf label =>
        obtain rfl : label = Label.comment := by simpa [isLoose] using hn
        rfl
      | branch => cases hn
    rw [anyFault, hNone, ih hRest]
    rfl

theorem Regular.of_mem {root n : Node} (h : root.Regular) (hn : n ∈ root.nodes) : n.Regular :=
  fun _ hm => h _ (nodes_subset root hn hm)

theorem Regular.part {label : Label} {parts : List Node} {n : Node} (h : (branch label parts).Regular)
    (hn : n ∈ parts) : n.Regular :=
  h.of_mem (part_mem_nodes hn)

theorem Regular.sound {n : Node} (h : n.Regular) : n.Sound :=
  h n n.self_mem_nodes

end Node

namespace Refilled

open Node

variable {n n' : Node}

theorem label?_eq (h : Refilled n n') : n'.label? = n.label? := by
  cases h <;> rfl

theorem kind_eq (h : Refilled n n') : n'.kind = n.kind := by
  rw [kind, h.label?_eq, kind]

theorem exists_class (h : Refilled n n') : ∃ m ∈ n.nodes, m.isClass = true := by
  induction h with
  | here _ _ hClass => exact ⟨_, part_mem_nodes (by simp), hClass⟩
  | inside _ _ ih =>
    obtain ⟨m, hm, hClass⟩ := ih
    exact ⟨m, nodes_subset _ (part_mem_nodes (by simp)) hm, hClass⟩

theorem not_closed (h : Refilled n n') (hSound : n.Sound) : n.kind ∉ closedKinds := by
  intro hKind
  obtain ⟨m, hm, hClass⟩ := h.exists_class
  rw [hSound.closed hKind m hm] at hClass
  cases hClass

theorem hasFault_eq (h : Refilled n n') : n'.hasFault = n.hasFault := by
  induction h with
  | here hExchange =>
    simp only [hasFault, anyFault_append, anyFault_of_isLoose hExchange.isLoose_old,
      anyFault_of_isLoose hExchange.isLoose_new]
    rfl
  | inside _ _ ih =>
    simp only [hasFault, anyFault_append, anyFault, ih]
    rfl

/-- A node and its refilled one begin with the same text up to an end of line. -/
theorem exists_text (h : Refilled n n') :
    ∃ x r r', n.text = x ++ '\n' :: r ∧ n'.text = x ++ '\n' :: r' := by
  induction h with
  | @here label front old new near back child hExchange =>
    obtain ⟨x, r, r', _, hOld, hNew⟩ := hExchange.exists_text
    refine ⟨textAll front ++ x, r ++ textAll (near ++ child :: back),
      r' ++ textAll (near ++ child :: back), ?_, ?_⟩
    · simp [text, hOld]
    · simp [text, hNew]
  | @inside label front back child child' _ _ ih =>
    obtain ⟨x, r, r', hOld, hNew⟩ := ih
    refine ⟨textAll front ++ x, r ++ textAll back, r' ++ textAll back, ?_, ?_⟩
    · simp [text, hOld]
    · simp [text, hNew]

theorem head?_text (h : Refilled n n') : n'.text.head? = n.text.head? := by
  obtain ⟨x, r, r', hOld, hNew⟩ := h.exists_text
  rw [hOld, hNew]
  cases x <;> rfl

end Refilled

theorem SyntaxParser.Lawful.accepts {parser : SyntaxParser} (h : parser.Lawful) {text : List Char}
    {root root' : Node} (hAccepts : parser.Accepts text root) (hRefilled : Refilled root root') :
    parser.Accepts root'.text root' :=
  ⟨hAccepts.ready, h.refilled hAccepts hRefilled, hRefilled.hasFault_eq.trans hAccepts.faultless⟩

end DocWiring.Php
