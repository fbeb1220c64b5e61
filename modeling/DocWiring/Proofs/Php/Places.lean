import DocWiring.Php.Reading
import DocWiring.Php.Sound

/-! # The order of a walk over a tree

The walk visits a node before its parts, and the parts from the first one to the last.  So the rows of
the places that it visits never decrease, and the row of each of them is the number of line feeds in the
text before its node.
-/

namespace DocWiring.Php

theorem lineBreaks_append (s t : List Char) : lineBreaks (s ++ t) = lineBreaks s + lineBreaks t :=
  List.count_append

theorem lineBreaks_eq_zero {t : List Char} (h : '\n' ∉ t) : lineBreaks t = 0 :=
  List.count_eq_zero_of_not_mem h

theorem lineBreaks_cons_feed (t : List Char) : lineBreaks ('\n' :: t) = lineBreaks t + 1 :=
  List.count_cons_self

theorem feeds_cons (n : Node) (ns : List Node) : feeds (n :: ns) = lineBreaks n.text + feeds ns :=
  rfl

theorem feeds_append (ms ns : List Node) : feeds (ms ++ ns) = feeds ms + feeds ns := by
  induction ms with
  | nil => rw [List.nil_append, feeds, Nat.zero_add]
  | cons m ms ih => rw [List.cons_append, feeds_cons, feeds_cons, ih, Nat.add_assoc]

theorem feeds_reverse (ns : List Node) : feeds ns.reverse = feeds ns := by
  induction ns with
  | nil => rfl
  | cons n ns ih =>
    rw [List.reverse_cons, feeds_append, ih, feeds_cons, feeds_cons, feeds, Nat.add_zero, Nat.add_comm]

namespace Node

@[simp] theorem textAll_nil : textAll [] = [] :=
  rfl

@[simp] theorem textAll_cons (n : Node) (ns : List Node) : textAll (n :: ns) = n.text ++ textAll ns :=
  rfl

@[simp] theorem textAll_append (ms ns : List Node) : textAll (ms ++ ns) = textAll ms ++ textAll ns := by
  induction ms with
  | nil => rfl
  | cons m ms ih => rw [List.cons_append, textAll, textAll, ih, List.append_assoc]

theorem lineBreaks_textAll (ns : List Node) : lineBreaks (textAll ns) = feeds ns := by
  induction ns with
  | nil => rfl
  | cons n ns ih => rw [textAll, lineBreaks_append, ih, feeds_cons]

/-! ## Nodes of a tree -/

theorem mem_nodesAll_iff {m : Node} {ns : List Node} : m ∈ nodesAll ns ↔ ∃ n ∈ ns, m ∈ n.nodes := by
  induction ns with
  | nil => simp [nodesAll]
  | cons n ns ih => simp [nodesAll, ih]

theorem self_mem_nodes (n : Node) : n ∈ n.nodes := by
  cases n <;> exact List.mem_cons_self

mutual

theorem nodes_subset {m : Node} : (n : Node) → m ∈ n.nodes → m.nodes ⊆ n.nodes
  | gap text, h => by
    rw [List.mem_singleton.mp h]
    exact List.Subset.refl _
  | leaf label text, h => by
    rw [List.mem_singleton.mp h]
    exact List.Subset.refl _
  | branch label parts, h => by
    rcases List.mem_cons.mp h with rfl | h
    · exact List.Subset.refl _
    · exact List.subset_cons_of_subset _ (nodesAll_subset parts h)

theorem nodesAll_subset {m : Node} : (ns : List Node) → m ∈ nodesAll ns → m.nodes ⊆ nodesAll ns
  | n :: ns, h => by
    rcases List.mem_append.mp h with h | h
    · exact List.subset_append_of_subset_left _ (nodes_subset n h)
    · exact List.subset_append_of_subset_right _ (nodesAll_subset ns h)

end

theorem part_mem_nodes {label : Label} {parts : List Node} {n : Node} (h : n ∈ parts) :
    n ∈ (branch label parts).nodes :=
  List.mem_cons_of_mem _ (mem_nodesAll_iff.mpr ⟨n, h, n.self_mem_nodes⟩)

/-- A node of a tree, and the text before it. -/
inductive At (root : Node) : List Char → Node → Prop
  | root : At root [] root
  | part {before : List Char} {label : Label} {front back : List Node} {n : Node}
      (h : At root before (branch label (front ++ n :: back))) : At root (before ++ textAll front) n

namespace At

variable {root n : Node} {before : List Char}

theorem exists_text (h : root.At before n) : ∃ after, root.text = before ++ (n.text ++ after) := by
  induction h with
  | root => exact ⟨[], by simp⟩
  | @part before label front back n _ ih =>
    obtain ⟨after, hText⟩ := ih
    exact ⟨textAll back ++ after, by rw [hText, text]; simp⟩

theorem mem_nodes (h : root.At before n) : n ∈ root.nodes := by
  induction h with
  | root => exact root.self_mem_nodes
  | part _ ih => exact nodes_subset root ih (part_mem_nodes (by simp))

end At

/-! ## Places -/

mutual

/-- The places of a node and of what is kept of everything in it. -/
def places (keep : Node → Bool) (base : Nat) (before : List Node) : Node → List Place
  | gap text => [⟨base, before, gap text⟩]
  | leaf label text => [⟨base, before, leaf label text⟩]
  | branch label parts =>
    ⟨base, before, branch label parts⟩ :: placesAll keep (base + feeds before) [] parts

def placesAll (keep : Node → Bool) (base : Nat) (before : List Node) : List Node → List Place
  | [] => []
  | n :: ns =>
    (if keep n then n.places keep base before else []) ++ placesAll keep base (n :: before) ns

end

variable {keep : Node → Bool} {base : Nat} {before : List Node}

theorem places_eq (n : Node) : n.places keep base before =
    ⟨base, before, n⟩ :: placesAll keep (base + feeds before) [] n.parts := by
  cases n <;> rfl

theorem placesAll_append (ms ns : List Node) : placesAll keep base before (ms ++ ns) =
    placesAll keep base before ms ++ placesAll keep base (ms.reverse ++ before) ns := by
  induction ms generalizing before with
  | nil => rfl
  | cons m ms ih => simp [placesAll, ih]

end Node

namespace Place

open Node

variable {keep : Node → Bool}

theorem flatMap_places_along (base : Nat) (before ns : List Node) :
    ((along base before ns).filter fun p => keep p.node).flatMap
        (fun p => p.node.places keep p.base p.before) = placesAll keep base before ns := by
  induction ns generalizing before with
  | nil => rfl
  | cons n ns ih =>
    rw [along, placesAll, ← ih, List.filter_cons]
    split <;> rfl

/-- The stack holds what is still to be visited. -/
theorem walk_eq (stack : List Place) :
    walk keep stack = stack.flatMap fun p => p.node.places keep p.base p.before := by
  induction stack using walk.induct keep with
  | case1 => rw [walk]; rfl
  | case2 p stack ih =>
    rw [walk, ih, List.flatMap_append, children, flatMap_places_along, List.flatMap_cons, places_eq]
    rfl

/-- A place in a tree, among the parts of the node around it. -/
def Lies (root : Node) (p : Place) : Prop :=
  ∃ text label back, root.At text (branch label (p.before.reverse ++ p.node :: back)) ∧
    p.base = lineBreaks text

end Place

namespace Node

variable {keep : Node → Bool} {root : Node} {p : Place}

mutual

theorem lies_of_mem_places : (n : Node) → {text : List Char} → {label : Label} → {base : Nat} →
    {before back : List Node} → root.At text (branch label (before.reverse ++ n :: back)) →
    base = lineBreaks text → p ∈ n.places keep base before → p.Lies root
  | gap _, _, _, _, _, _, hAt, hBase, h => by
    rw [List.mem_singleton.mp h]
    exact ⟨_, _, _, hAt, hBase⟩
  | leaf _ _, _, _, _, _, _, hAt, hBase, h => by
    rw [List.mem_singleton.mp h]
    exact ⟨_, _, _, hAt, hBase⟩
  | branch _ parts, _, _, _, before, _, hAt, hBase, h => by
    rcases List.mem_cons.mp h with rfl | h
    · exact ⟨_, _, _, hAt, hBase⟩
    · have hParts : root.At _ (branch _ (([] : List Node).reverse ++ parts)) := hAt.part
      refine lies_of_mem_placesAll parts hParts ?_ h
      rw [hBase, lineBreaks_append, lineBreaks_textAll, feeds_reverse]

theorem lies_of_mem_placesAll : (ns : List Node) → {text : List Char} → {label : Label} →
    {base : Nat} → {before : List Node} → root.At text (branch label (before.reverse ++ ns)) →
    base = lineBreaks text → p ∈ placesAll keep base before ns → p.Lies root
  | n :: ns, _, _, _, _, hAt, hBase, h => by
    rcases List.mem_append.mp h with h | h
    · split at h
      · exact lies_of_mem_places n hAt hBase h
      · cases h
    · exact lies_of_mem_placesAll ns (by simpa using hAt) hBase h

end

mutual

theorem row_of_mem_places : (n : Node) → {base : Nat} → {before : List Node} →
    p ∈ n.places keep base before →
    base + feeds before ≤ p.row ∧ p.row ≤ base + feeds before + lineBreaks n.text
  | gap _, _, _, h => by
    rw [List.mem_singleton.mp h]
    exact ⟨Nat.le_refl _, Nat.le_add_right _ _⟩
  | leaf _ _, _, _, h => by
    rw [List.mem_singleton.mp h]
    exact ⟨Nat.le_refl _, Nat.le_add_right _ _⟩
  | branch _ parts, _, _, h => by
    rcases List.mem_cons.mp h with rfl | h
    · exact ⟨Nat.le_refl _, Nat.le_add_right _ _⟩
    · have hRow := row_of_mem_placesAll parts h
      rwa [Node.text, lineBreaks_textAll]

theorem row_of_mem_placesAll : (ns : List Node) → {base : Nat} → {before : List Node} →
    p ∈ placesAll keep base before ns →
    base + feeds before ≤ p.row ∧ p.row ≤ base + feeds before + feeds ns
  | n :: ns, _, _, h => by
    rw [feeds_cons]
    rcases List.mem_append.mp h with h | h
    · split at h
      · have hRow := row_of_mem_places n h
        omega
      · cases h
    · have hRow := row_of_mem_placesAll ns h
      rw [feeds_cons] at hRow
      omega

end

mutual

theorem pairwise_places : (n : Node) → (base : Nat) → (before : List Node) →
    (n.places keep base before).Pairwise fun p q => p.row ≤ q.row
  | gap _, _, _ => List.pairwise_singleton _ _
  | leaf _ _, _, _ => List.pairwise_singleton _ _
  | branch _ parts, _, _ =>
    .cons (fun _ hq => (row_of_mem_placesAll parts hq).1) (pairwise_placesAll parts _ [])

theorem pairwise_placesAll : (ns : List Node) → (base : Nat) → (before : List Node) →
    (placesAll keep base before ns).Pairwise fun p q => p.row ≤ q.row
  | [], _, _ => .nil
  | n :: ns, base, before => by
    refine List.pairwise_append.mpr ⟨?_, pairwise_placesAll ns base (n :: before), fun p hp q hq => ?_⟩
    · split
      · exact pairwise_places n base before
      · exact .nil
    · split at hp
      · have hFirst := (row_of_mem_places n hp).2
        have hNext := (row_of_mem_placesAll ns hq).1
        rw [feeds_cons] at hNext
        omega
      · cases hp

end

/-- The classes of a tree come from its places in the order of the walk. -/
theorem classes_eq (root : Node) :
    root.classes = (root.places isNamed 0 []).filterMap Place.class? := by
  rw [classes, Place.walk_eq]
  simp [place]

/-- A place of a tree is that of its root, or it lies in the tree. -/
theorem eq_or_lies_of_mem (h : p ∈ root.places keep 0 []) : p = root.place ∨ p.Lies root := by
  rw [places_eq] at h
  rcases List.mem_cons.mp h with rfl | h
  · exact .inl rfl
  · cases root with
    | gap | leaf => cases h
    | branch label parts =>
      have hParts : At (branch label parts) [] (branch label (([] : List Node).reverse ++ parts)) := .root
      exact .inr (lies_of_mem_placesAll parts hParts rfl h)

end Node

end DocWiring.Php
