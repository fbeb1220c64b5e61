import DocWiring.Proofs.Php.Refilled
import Mathlib.Data.List.Forall2

/-! # What is read of a class in a refilled tree

Nothing is read of a comment, and no class has a part in names, texts and values.  So the name, the
parent and the attributes of every class are the ones they were.
-/

namespace DocWiring.Php

open Node

theorem isNamed_congr {m m' : Node} (h : m'.label? = m.label?) : m'.isNamed = m.isNamed := by
  rw [isNamed, h, isNamed]

theorem kind_congr {m m' : Node} (h : m'.label? = m.label?) : m'.kind = m.kind := by
  rw [kind, h, kind]

/-- A node of a regular tree that is the one it was or has been refilled. -/
structure Renewed (n n' : Node) : Prop where
  regular : n.Regular
  same : n' = n ∨ Refilled n n'

namespace Renewed

variable {n n' : Node} {ns ns' : List Node} {P : Node → Bool}

theorem label?_eq (h : Renewed n n') : n'.label? = n.label? := by
  rcases h.same with rfl | hRefilled
  · rfl
  · exact hRefilled.label?_eq

theorem kind_eq (h : Renewed n n') : n'.kind = n.kind :=
  kind_congr h.label?_eq

theorem eq_of_closed (h : Renewed n n') (hKind : n.kind ∈ closedKinds) : n' = n := by
  rcases h.same with hSame | hRefilled
  · exact hSame
  · exact absurd hKind (hRefilled.not_closed h.regular.sound)

theorem self_of_regular (h : ∀ n ∈ ns, n.Regular) : List.Forall₂ Renewed ns ns :=
  List.forall₂_same.mpr fun n hn => ⟨h n hn, .inl rfl⟩

theorem regular_parts (h : n.Regular) : ∀ part ∈ n.parts, part.Regular := by
  cases n with
  | gap | leaf => exact fun _ hPart => absurd hPart List.not_mem_nil
  | branch => exact fun _ hPart => h.part hPart

/-- The parts that are chosen by their labels, comments not among them. -/
theorem forall₂_filter (h : Renewed n n') (hLabel : ∀ m m', m'.label? = m.label? → P m' = P m)
    (hLoose : ∀ m, m.isLoose = true → P m = false) :
    List.Forall₂ Renewed (n.parts.filter P) (n'.parts.filter P) := by
  have hParts : ∀ part ∈ n.parts.filter P, part.Regular := fun part hPart =>
    regular_parts h.regular part (List.mem_filter.mp hPart).1
  have hNone {ns : List Node} (hns : ∀ m ∈ ns, m.isLoose = true) : ns.filter P = [] := by
    rw [List.filter_eq_nil_iff]
    intro m hm
    simp [hLoose m (hns m hm)]
  rcases h.same with rfl | hRefilled
  · exact self_of_regular hParts
  · cases hRefilled with
    | here hExchange =>
      simp only [parts, List.filter_append, hNone hExchange.isLoose_old, hNone hExchange.isLoose_new]
        at hParts ⊢
      exact self_of_regular hParts
    | @inside label front back child child' hInner hNamed =>
      have hChild : Renewed child child' := ⟨h.regular.part (by simp), .inr hInner⟩
      simp only [parts, List.filter_append, List.filter_cons, hLabel child child' hChild.label?_eq]
        at hParts ⊢
      refine List.rel_append (self_of_regular fun m hm => hParts m (by simp [hm])) ?_
      split
      · exact .cons hChild (self_of_regular fun m hm => hParts m (by simp_all))
      · exact self_of_regular fun m hm => hParts m (by simp_all)

/-- Where no part is a class, only parts are refilled. -/
theorem forall₂_parts (h : Renewed n n') (hApart : ∀ part ∈ n.parts, part.isClass = false) :
    List.Forall₂ Renewed n.parts n'.parts := by
  have hParts := regular_parts h.regular
  rcases h.same with rfl | hRefilled
  · exact self_of_regular hParts
  · cases hRefilled with
    | here _ _ hClass =>
      rw [hApart _ (by simp [parts])] at hClass
      cases hClass
    | inside hInner =>
      simp only [parts] at hParts ⊢
      exact List.rel_append (self_of_regular fun m hm => hParts m (by simp [hm]))
        (.cons ⟨hParts _ (by simp), .inr hInner⟩ (self_of_regular fun m hm => hParts m (by simp [hm])))

theorem rel_head? (h : List.Forall₂ Renewed ns ns') : Option.Rel Renewed ns.head? ns'.head? := by
  cases h with
  | nil => exact .none
  | cons h => exact .some h

theorem rel_find? (h : Renewed n n') (hLabel : ∀ m m', m'.label? = m.label? → P m' = P m)
    (hLoose : ∀ m, m.isLoose = true → P m = false) :
    Option.Rel Renewed (n.parts.find? P) (n'.parts.find? P) := by
  rw [← List.head?_filter, ← List.head?_filter]
  exact rel_head? (h.forall₂_filter hLabel hLoose)

theorem forall₂_namedParts (h : Renewed n n') (hKind : n.kind ∈ valueKinds) :
    List.Forall₂ Renewed n.namedParts n'.namedParts := by
  refine List.rel_filter ?_ (h.forall₂_parts (h.regular.sound.apart hKind))
  intro m m' hm
  dsimp only
  rw [isNamed_congr hm.label?_eq]

end Renewed

/-! ## Literals -/

namespace Refilled

variable {n n' : Node}

theorem items_append (ms ns : List Node) : items (ms ++ ns) = items ms ++ items ns := by
  induction ms with
  | nil => rfl
  | cons m ms ih =>
    rw [List.cons_append, items, items, ih]
    split <;> rfl

theorem literals_append (ms ns : List Node) : literals (ms ++ ns) = literals ms ++ literals ns := by
  induction ms with
  | nil => rfl
  | cons m ms ih =>
    rw [List.cons_append, literals, literals, ih]
    split <;> rfl

theorem items_of_isLoose {ns : List Node} (h : ∀ n ∈ ns, n.isLoose = true) : items ns = [] := by
  induction ns with
  | nil => rfl
  | cons n ns ih =>
    obtain ⟨hn, hRest⟩ := List.forall_mem_cons.mp h
    have hKind : n.kind ≠ "array_element_initializer" := by
      rcases kind_of_isLoose hn with hKind | hKind <;> simp [hKind]
    rw [items, if_neg (by simp [hKind]), ih hRest]

/-- A text with a class in it has code in it. -/
theorem textLiteral?_eq_none {label : Label} {front back : List Node} {child : Node}
    (hKind : label.kind = "encapsed_string") (hNamed : child.isNamed = true)
    (hOpen : child.kind ∉ closedKinds) :
    (branch label (front ++ child :: back)).textLiteral? = none := by
  have hPlain : child.kind ∉ plainTextParts := by
    intro hMem
    apply hOpen
    simp only [plainTextParts, List.mem_cons, List.not_mem_nil, or_false] at hMem
    rcases hMem with hMem | hMem | hMem <;> simp [hMem, closedKinds]
  have hSame : (branch label (front ++ child :: back)).kind = label.kind := rfl
  rw [textLiteral?, if_pos]
  rw [Bool.and_eq_true, hSame, hKind]
  refine ⟨rfl, List.any_eq_true.mpr ⟨child, ?_, by simpa using hPlain⟩⟩
  simp [namedParts, parts, hNamed]

theorem literal_branch (label : Label) (parts : List Node) :
    (branch label parts).literal = literalOf (branch label parts) (items parts) :=
  rfl

theorem literalOf_branch {label : Label} (h : label.kind ∉ closedKinds)
    (hText : label.kind ≠ "encapsed_string") (parts : List Node) (is : List ListItem) :
    literalOf (branch label parts) is =
      if label.kind == "array_creation_expression" then .list is else .other := by
  have hKind : (branch label parts).kind = label.kind := rfl
  have hString : label.kind ≠ "string" := fun hKind => h (by simp [hKind, closedKinds])
  simp [literalOf, isText, hKind, hString, hText]

theorem literalOf_code {label : Label} {parts : List Node} (hText : label.kind = "encapsed_string")
    (h : (branch label parts).textLiteral? = none) (is : List ListItem) :
    literalOf (branch label parts) is = .other := by
  have hKind : (branch label parts).kind = label.kind := rfl
  rw [literalOf, if_pos (by simp [isText, hKind, hText]), h]
  rfl

/-- The value of a node as a literal stays, and so does what an item says. -/
theorem literal_eq (h : Refilled n n') (hRegular : n.Regular) : n'.literal = n.literal ∧
    (n.kind = "array_element_initializer" → n'.item = n.item) := by
  induction h with
  | @here label front old new near back child hExchange hLoose hClass =>
    have hKind := not_closed (.here hExchange hLoose hClass) hRegular.sound
    have hApart : label.kind ∉ valueKinds := by
      intro hValue
      have hNone := hRegular.sound.apart hValue child (by simp [parts])
      rw [hClass] at hNone
      cases hNone
    constructor
    · have hText : label.kind ≠ "encapsed_string" := fun hText => hApart (by simp [hText, valueKinds])
      have hItems (ns : List Node) (hns : ∀ n ∈ ns, n.isLoose = true) :
          items (front ++ (ns ++ (near ++ child :: back))) = items front ++ items (near ++ child :: back) := by
        rw [items_append, items_append, items_of_isLoose hns, List.nil_append]
      rw [literal_branch, literal_branch, hItems _ hExchange.isLoose_old, hItems _ hExchange.isLoose_new,
        literalOf_branch hKind hText, literalOf_branch hKind hText]
    · intro hItem
      have hElement : label.kind = "array_element_initializer" := hItem
      exact absurd (by simp [hElement, valueKinds]) hApart
  | @inside label front back child child' hInner hNamed ih =>
    have hChild := hRegular.part (n := child) (by simp)
    obtain ⟨hLiteral, hItem⟩ := ih hChild
    have hNamed' : child'.isNamed = true := (isNamed_congr hInner.label?_eq).trans hNamed
    have hOpen := hInner.not_closed hChild.sound
    have hOpen' : child'.kind ∉ closedKinds := hInner.kind_eq.symm ▸ hOpen
    constructor
    · by_cases hText : label.kind = "encapsed_string"
      · rw [literal_branch, literal_branch,
          literalOf_code hText (textLiteral?_eq_none hText hNamed hOpen),
          literalOf_code hText (textLiteral?_eq_none hText hNamed' hOpen')]
      · have hKind := not_closed (.inside hInner hNamed) hRegular.sound
        have hItems : items (front ++ child' :: back) = items (front ++ child :: back) := by
          rw [items_append, items_append, items, items, hNamed', hNamed, hInner.kind_eq]
          by_cases hElement : child.kind = "array_element_initializer"
          · rw [hItem hElement]
          · simp [hElement]
        rw [literal_branch, literal_branch, hItems, literalOf_branch hKind hText,
          literalOf_branch hKind hText]
    · intro _
      have hArrow : (front ++ child' :: back).any (fun part => part.kind == "=>") =
          (front ++ child :: back).any fun part => part.kind == "=>" := by
        simp [hInner.kind_eq]
      rw [item, item, hArrow, literals_append, literals_append, literals, literals, hNamed', hNamed,
        hLiteral]

end Refilled

namespace Renewed

variable {n n' : Node} {ns ns' : List Node}

theorem literal_eq (h : Renewed n n') : n'.literal = n.literal := by
  rcases h.same with rfl | hRefilled
  · rfl
  · exact (hRefilled.literal_eq h.regular).1

/-! ## Attributes -/

theorem findIdx?_eq {P : Node → Bool} (h : List.Forall₂ Renewed ns ns')
    (hLabel : ∀ m m', m'.label? = m.label? → P m' = P m) : ns'.findIdx? P = ns.findIdx? P := by
  induction h with
  | nil => rfl
  | cons hHead _ ih => rw [List.findIdx?_cons, List.findIdx?_cons, hLabel _ _ hHead.label?_eq, ih]

theorem forall₂_eraseIdx (h : List.Forall₂ Renewed ns ns') (i : Nat) :
    List.Forall₂ Renewed (ns.eraseIdx i) (ns'.eraseIdx i) := by
  induction h generalizing i with
  | nil => exact .nil
  | cons hHead hRest ih =>
    cases i with
    | zero => exact hRest
    | succ i => exact .cons hHead (ih i)

theorem rel_getElem? (h : List.Forall₂ Renewed ns ns') (i : Nat) :
    Option.Rel Renewed ns[i]? ns'[i]? := by
  induction h generalizing i with
  | nil => exact .none
  | cons hHead _ ih =>
    cases i with
    | zero => exact .some hHead
    | succ i => exact ih i

theorem rel_findSome?_initial? (h : List.Forall₂ Renewed ns ns') :
    Option.Rel Renewed (ns.findSome? initial?) (ns'.findSome? initial?) := by
  rw [← List.head?_filterMap, ← List.head?_filterMap]
  refine rel_head? (List.rel_filterMap ?_ h)
  intro m m' hm
  rw [initial?, initial?, hm.kind_eq]
  split
  next hInitializer =>
    exact rel_head? (hm.forall₂_namedParts (by simp [beq_iff_eq.mp hInitializer, valueKinds]))
  next => exact .some hm

theorem filterMap_eq {f : Node → Option α} (h : List.Forall₂ Renewed ns ns')
    (hf : ∀ m ∈ ns, ∀ m', Renewed m m' → f m' = f m) : ns'.filterMap f = ns.filterMap f := by
  induction h with
  | nil => rfl
  | cons hHead _ ih =>
    obtain ⟨hFirst, hRest⟩ := List.forall_mem_cons.mp hf
    rw [List.filterMap_cons, List.filterMap_cons, hFirst _ hHead, ih hRest]

theorem flatMap_eq {f : Node → List α} (h : List.Forall₂ Renewed ns ns')
    (hf : ∀ m m', Renewed m m' → f m' = f m) : ns'.flatMap f = ns.flatMap f := by
  induction h with
  | nil => rfl
  | cons hHead _ ih => rw [List.flatMap_cons, List.flatMap_cons, hf _ _ hHead, ih]

theorem attribute?_eq (h : Renewed n n') (hKind : n.kind = "property_element") :
    n'.attribute? = n.attribute? := by
  have hNamed : List.Forall₂ Renewed n.namedParts n'.namedParts :=
    h.forall₂_namedParts (by simp [hKind, valueKinds])
  have hIndex : n'.namedParts.findIdx? (fun child => child.kind == "variable_name") =
      n.namedParts.findIdx? fun child => child.kind == "variable_name" :=
    findIdx?_eq hNamed fun m m' hLabel => by rw [kind_congr hLabel]
  unfold attribute?
  dsimp only
  rw [hIndex]
  cases hFound : n.namedParts.findIdx? fun child => child.kind == "variable_name" with
  | none => rfl
  | some i =>
    obtain ⟨hLess, hVariable, _⟩ := List.findIdx?_eq_some_iff_getElem.mp hFound
    have hName : n'.namedParts[i]? = n.namedParts[i]? := by
      have hRel := rel_getElem? hNamed i
      rw [List.getElem?_eq_getElem hLess] at hRel ⊢
      generalize n'.namedParts[i]? = given at hRel
      cases hRel with
      | some hSame => rw [hSame.eq_of_closed (by simp [beq_iff_eq.mp hVariable, closedKinds])]
    have hValue := rel_findSome?_initial? (forall₂_eraseIdx hNamed i)
    simp only [Option.bind_eq_bind, Option.bind_some, hName]
    generalize List.findSome? _ (n.namedParts.eraseIdx i) = value,
      List.findSome? _ (n'.namedParts.eraseIdx i) = value' at hValue ⊢
    cases hValue with
    | none => rfl
    | some hSame => simp only [Option.map_some, hSame.literal_eq]

/-- The parts of one kind. -/
theorem forall₂_ofKind (h : Renewed n n') {kind : String} (hNone : kind ≠ "")
    (hComment : kind ≠ "comment") :
    List.Forall₂ Renewed (n.namedParts.filter fun part => part.kind == kind)
      (n'.namedParts.filter fun part => part.kind == kind) := by
  rw [namedParts, namedParts, List.filter_filter, List.filter_filter]
  refine h.forall₂_filter (fun m m' hLabel => ?_) fun m hLoose => ?_
  · rw [isNamed_congr hLabel, kind_congr hLabel]
  · rcases kind_of_isLoose hLoose with hKind | hKind <;> simp [hKind, hNone.symm, hComment.symm]

theorem propertiesOf_eq (h : Renewed n n') : n'.propertiesOf = n.propertiesOf := by
  refine filterMap_eq (h.forall₂_ofKind (by decide) (by decide)) fun m hm m' hSame => ?_
  exact hSame.attribute?_eq (by simpa using (List.mem_filter.mp hm).2)

theorem attributesOf_eq (h : Renewed n n') : n'.attributesOf = n.attributesOf :=
  flatMap_eq (h.forall₂_ofKind (by decide) (by decide)) fun _ _ hSame => hSame.propertiesOf_eq

/-! ## Classes -/

theorem rel_childByField? (h : Renewed n n') (field : String) :
    Option.Rel Renewed (n.childByField? field) (n'.childByField? field) := by
  refine h.rel_find? (fun m m' hLabel => by rw [hLabel]) fun m hLoose => ?_
  cases m with
  | gap => rfl
  | leaf label =>
    obtain rfl : label = Label.comment := by simpa [isLoose] using hLoose
    rfl
  | branch => cases hLoose

theorem parentName?_eq (h : Renewed n n') : n'.parentName? = n.parentName? := by
  have hBase : Option.Rel Renewed (n.namedParts.find? fun part => part.kind == "base_clause")
      (n'.namedParts.find? fun part => part.kind == "base_clause") := by
    rw [← List.head?_filter, ← List.head?_filter]
    exact rel_head? (h.forall₂_ofKind (by decide) (by decide))
  unfold parentName?
  generalize n.namedParts.find? _ = base, n'.namedParts.find? _ = base' at hBase ⊢
  cases hBase with
  | none => rfl
  | @some base base' hSame =>
    have hParent : Option.Rel Renewed
        (base.namedParts.find? fun part => part.kind == "name" || part.kind == "qualified_name")
        (base'.namedParts.find? fun part => part.kind == "name" || part.kind == "qualified_name") := by
      rw [namedParts, namedParts, List.find?_filter, List.find?_filter]
      refine hSame.rel_find? (fun m m' hLabel => ?_) fun m hLoose => ?_
      · rw [isNamed_congr hLabel, kind_congr hLabel]
      · rcases kind_of_isLoose hLoose with hKind | hKind <;> simp [hKind]
    simp only [Option.bind_eq_bind, Option.bind_some]
    cases hFound : base.namedParts.find? fun part => part.kind == "name" || part.kind == "qualified_name" with
    | none =>
      rw [hFound] at hParent
      generalize base'.namedParts.find? _ = parent' at hParent ⊢
      cases hParent
      rfl
    | some parent =>
      have hKind := List.find?_some hFound
      rw [hFound] at hParent
      generalize base'.namedParts.find? _ = parent' at hParent ⊢
      cases hParent with
      | some hParent =>
        rw [hParent.eq_of_closed]
        rcases (Bool.or_eq_true _ _).mp hKind with hKind | hKind
        · simp [beq_iff_eq.mp hKind, closedKinds]
        · simp [beq_iff_eq.mp hKind, closedKinds]

/-- A class says what it said. -/
theorem heading?_eq (h : Renewed n n') : n'.heading? = n.heading? := by
  by_cases hClass : n.kind = "class_declaration"
  · have hName : n'.childByField? "name" = n.childByField? "name" := by
      have hRel := h.rel_childByField? "name"
      have hNames := h.regular.sound.name (by simp [isClass, hClass])
      generalize n.childByField? "name" = name, n'.childByField? "name" = name' at hRel hNames
      cases hRel with
      | none => rfl
      | some hSame => rw [hSame.eq_of_closed (by simp [hNames _ rfl, closedKinds])]
    have hBody : (n'.childByField? "body").map attributesOf = (n.childByField? "body").map attributesOf := by
      have hRel := h.rel_childByField? "body"
      generalize n.childByField? "body" = body, n'.childByField? "body" = body' at hRel
      cases hRel with
      | none => rfl
      | some hSame => rw [Option.map_some, Option.map_some, hSame.attributesOf_eq]
    rw [heading?, heading?, h.kind_eq, hName, hBody, h.parentName?_eq]
  · rw [heading?_of_kind hClass, heading?_of_kind (h.kind_eq.symm ▸ hClass)]

end Renewed

end DocWiring.Php
