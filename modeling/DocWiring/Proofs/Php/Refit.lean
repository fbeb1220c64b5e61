import DocWiring.Proofs.Php.Renewed

/-! # The classes of a refilled tree

When a comment comes before a class, the classes before that one stay where they are, and those after it
go down with the lines below the comment.
-/

namespace DocWiring.Php

open Node

/-- The same classes, after `m` lines in the one list and after `m'` lines in the other. -/
def Lowered (m m' : Nat) (ss ss' : List Site) : Prop :=
  ∃ rs : List Site, ss.map Site.toClass = rs.map (fun r => (r.shift m).toClass) ∧
    ss'.map Site.toClass = rs.map fun r => (r.shift m').toClass

namespace Lowered

variable {m m' : Nat} {ss ss' ts ts' : List Site}

theorem append (h : Lowered m m' ss ss') (h' : Lowered m m' ts ts') :
    Lowered m m' (ss ++ ts) (ss' ++ ts') := by
  obtain ⟨rs, hOld, hNew⟩ := h
  obtain ⟨rs', hOld', hNew'⟩ := h'
  exact ⟨rs ++ rs', by rw [List.map_append, hOld, hOld', List.map_append],
    by rw [List.map_append, hNew, hNew', List.map_append]⟩

/-- Lines between the change and the classes are lines before the classes. -/
theorem add (h : Lowered (m + k) (m' + k) ss ss') : Lowered m m' ss ss' := by
  obtain ⟨rs, hOld, hNew⟩ := h
  have hSplit (r : Site) (i : Nat) : r.shift (i + k) = (r.shift k).shift i := by
    rw [Site.shift_shift, Nat.add_comm]
  refine ⟨rs.map (Site.shift k), ?_, ?_⟩
  · simp only [hOld, hSplit, List.map_map, Function.comp_def]
  · simp only [hNew, hSplit, List.map_map, Function.comp_def]

end Lowered

theorem lowered_sitesAll (m m' : Nat) (before ns : List Node) :
    Lowered m m' (sitesAll m before ns) (sitesAll m' before ns) := by
  have hShift (i : Nat) : sitesAll i before ns = (sitesAll 0 before ns).map (Site.shift i) := by
    rw [← sitesAll_shift, Nat.zero_add]
  refine ⟨sitesAll 0 before ns, ?_, ?_⟩
  · rw [hShift m, List.map_map]
    rfl
  · rw [hShift m', List.map_map]
    rfl

/-- The classes after a node that is no comment go down with it. -/
theorem lowered_after {c c' : Node} {base m m' : Nat} {earlier earlier' : List Node}
    (hNode : c.isNode = true) (hKind : c.kind ≠ "comment") (hLabel : c'.label? = c.label?)
    (hOld : base + feeds (c :: earlier) = m) (hNew : base + feeds (c' :: earlier') = m')
    (ns : List Node) :
    Lowered m m' (sitesAll base (c :: earlier) ns) (sitesAll base (c' :: earlier') ns) := by
  obtain ⟨rs, hLow, hLow'⟩ := lowered_sitesAll m m' [] ns
  have hNode' : c'.isNode = true := by rwa [isNode, hLabel]
  have hCut := classes_sitesAll_cut hNode hKind base [] earlier ns
  have hCut' := classes_sitesAll_cut hNode' (kind_congr hLabel ▸ hKind) base [] earlier' ns
  rw [hOld] at hCut
  rw [hNew] at hCut'
  exact ⟨rs, hCut.trans hLow, hCut'.trans hLow'⟩

theorem row_of_mem_sitesAll {s : Site} {base : Nat} {before ns : List Node}
    (h : s ∈ sitesAll base before ns) : s.row ≤ base + feeds before + feeds ns := by
  obtain ⟨p, hp, hSite⟩ := List.mem_filterMap.mp h
  obtain ⟨heading, _, rfl⟩ := Option.map_eq_some_iff.mp hSite
  exact (row_of_mem_placesAll ns hp).2

/-- The part of a node in which a class is declared. -/
theorem exists_part {base : Nat} {before ns : List Node} {P Q : List Site} {s : Site}
    (h : sitesAll base before ns = P ++ s :: Q) :
    ∃ front c back P' Q', ns = front ++ c :: back ∧ c.isNamed = true ∧
      c.sites base (front.reverse ++ before) = P' ++ s :: Q' ∧ P = sitesAll base before front ++ P' ∧
      Q = Q' ++ sitesAll base (c :: (front.reverse ++ before)) back := by
  induction ns generalizing before P with
  | nil => simp [sitesAll, placesAll] at h
  | cons n ns ih =>
    rw [sitesAll_cons] at h
    have hLater {P'' : List Site} (hRest : sitesAll base (n :: before) ns = P'' ++ s :: Q)
        (hP : P = (if n.isNamed then n.sites base before else []) ++ P'') :
        ∃ front c back P' Q', n :: ns = front ++ c :: back ∧ c.isNamed = true ∧
          c.sites base (front.reverse ++ before) = P' ++ s :: Q' ∧
          P = sitesAll base before front ++ P' ∧
          Q = Q' ++ sitesAll base (c :: (front.reverse ++ before)) back := by
      obtain ⟨front, c, back, P', Q', rfl, hNamed, hSites, rfl, rfl⟩ := ih hRest
      refine ⟨n :: front, c, back, P', Q', rfl, hNamed, ?_, ?_, ?_⟩
      · simpa using hSites
      · rw [hP, sitesAll_cons, List.append_assoc]
      · simp
    rcases List.append_eq_append_iff.mp h with ⟨P'', rfl, hRest⟩ | ⟨Q'', hHere, hRest⟩
    · exact hLater hRest rfl
    · rcases List.cons_eq_append_iff.mp hRest with ⟨rfl, hRest⟩ | ⟨Q', rfl, rfl⟩
      · have hNone : sitesAll base (n :: before) ns = [] ++ s :: Q := hRest.symm
        exact hLater hNone (by simpa using hHere.symm)
      · have hNamed : n.isNamed = true := by
          by_contra hNot
          rw [if_neg hNot] at hHere
          simp at hHere
        rw [if_pos hNamed] at hHere
        exact ⟨[], n, ns, P, Q', rfl, hNamed, hHere, rfl, rfl⟩

section

variable {old new front near : List Node} {s : Site}

/-- What becomes of a node on the row `base` and of the classes in it when `old` is exchanged for `new`
before one of them. -/
structure Refit (old new front near : List Node) (base : Nat) (n n' : Node) (P : List Site) (s : Site)
    (Q Q' : List Site) (above below : List Char) : Prop where
  refilled : Refilled n n'
  text : n.text = above ++ (textAll old ++ below)
  text' : n'.text = above ++ (textAll new ++ below)
  starts : s.base + feeds front = base + lineBreaks above
  rows : ∀ q ∈ P, q.row ≤ base + lineBreaks above
  sites : sitesAll base [] n'.parts =
    P ++ { s with before := near.reverse ++ (new.reverse ++ front.reverse) } :: Q'
  lowered : Lowered (base + lineBreaks above + feeds old) (base + lineBreaks above + feeds new) Q Q'

theorem exists_refit_here (label : Label) (base : Nat) (back : List Node) {c : Node}
    {heading : Heading} (hExchange : Exchange old new) (hNear : ∀ n ∈ near, n.isLoose = true)
    (hNamed : c.isNamed = true) (hHeading : c.heading? = some heading) :
    ∃ n' Q', Refit old new front near base (.branch label (front ++ (old ++ near) ++ c :: back)) n'
      (sitesAll base [] (front ++ (old ++ near))) ⟨base, (front ++ (old ++ near)).reverse, heading⟩
      (sitesAll (base + feeds (front ++ (old ++ near)).reverse) [] c.parts ++
        sitesAll base (c :: (front ++ (old ++ near)).reverse) back) Q' (textAll front)
      (textAll (near ++ c :: back)) := by
  have hClass : c.isClass = true := by
    by_contra hNot
    rw [heading?_of_kind (by simpa [isClass] using hNot)] at hHeading
    cases hHeading
  have hKind : c.kind = "class_declaration" := by simpa [isClass] using hClass
  have hNode : c.isNode = true := isNode_of_kind hKind (by decide)
  have hRow (ms : List Node) : base + feeds (front ++ (ms ++ near)).reverse =
      base + lineBreaks (textAll front) + feeds ms + feeds near := by
    rw [feeds_reverse, feeds_append, feeds_append, lineBreaks_textAll]
    omega
  have hNext (ms : List Node) : base + feeds (c :: (front ++ (ms ++ near)).reverse) =
      base + lineBreaks (textAll front) + feeds ms + (feeds near + lineBreaks c.text) := by
    rw [feeds_cons, ← Nat.add_assoc, Nat.add_right_comm base, hRow]
    omega
  have hFront : sitesAll base [] (front ++ (old ++ near)) = sitesAll base [] front := by
    rw [sitesAll_append, sitesAll_append, sitesAll_of_isLoose hExchange.isLoose_old,
      sitesAll_of_isLoose hNear]
    simp
  rw [hFront, List.append_assoc front, List.append_assoc old]
  refine ⟨.branch label (front ++ (new ++ (near ++ c :: back))),
    sitesAll (base + feeds (front ++ (new ++ near)).reverse) [] c.parts ++
      sitesAll base (c :: (front ++ (new ++ near)).reverse) back, .here hExchange hNear hClass, ?_, ?_,
    ?_, ?_, ?_, ?_⟩
  · simp [Node.text]
  · simp [Node.text]
  · rw [lineBreaks_textAll]
  · intro q hq
    have hBound := row_of_mem_sitesAll hq
    rw [lineBreaks_textAll]
    exact hBound
  · rw [parts, sitesAll_append, sitesAll_append, sitesAll_append,
      sitesAll_of_isLoose hExchange.isLoose_new, sitesAll_of_isLoose hNear, sitesAll_cons, if_pos hNamed,
      sites_eq, hHeading]
    simp
  · refine .append ?_ ?_
    · rw [hRow, hRow]
      exact (lowered_sitesAll _ _ [] c.parts).add
    · exact (lowered_after hNode (by simp [hKind]) rfl (hNext old) (hNext new) back).add

theorem refit_inside {label : Label} {base : Nat} {c c' : Node} {ahead back : List Node}
    {P Q Q' : List Site} {above below : List Char}
    (h : Refit old new front near (base + feeds ahead.reverse) c c' P s Q Q' above below)
    (hRegular : c.Regular) (hNamed : c.isNamed = true) :
    Refit old new front near base (.branch label (ahead ++ c :: back)) (.branch label (ahead ++ c' :: back))
      (sitesAll base [] ahead ++ ((c.heading?.map (Site.mk base ahead.reverse)).toList ++ P)) s
      (Q ++ sitesAll base (c :: ahead.reverse) back) (Q' ++ sitesAll base (c' :: ahead.reverse) back)
      (textAll ahead ++ above) (below ++ textAll back) := by
  have hLabel := h.refilled.label?_eq
  have hKind : c.kind ≠ "comment" := fun hKind =>
    h.refilled.not_closed hRegular.sound (by simp [hKind, closedKinds])
  have hNode : c.isNode = true := by
    rw [isNamed] at hNamed
    rw [isNode]
    cases hNone : c.label? with
    | none => simp [hNone] at hNamed
    | some => rfl
  have hAbove : base + lineBreaks (textAll ahead ++ above) =
      base + feeds ahead.reverse + lineBreaks above := by
    rw [lineBreaks_append, lineBreaks_textAll, feeds_reverse, Nat.add_assoc]
  have hNext {d : Node} {ms : List Node} (hText : d.text = above ++ (textAll ms ++ below)) :
      base + feeds (d :: ahead.reverse) =
        base + feeds ahead.reverse + lineBreaks above + feeds ms + lineBreaks below := by
    rw [feeds_cons, hText, lineBreaks_append, lineBreaks_append, lineBreaks_textAll]
    omega
  refine ⟨.inside h.refilled hNamed, ?_, ?_, ?_, ?_, ?_, ?_⟩
  · simp [Node.text, h.text]
  · simp [Node.text, h.text']
  · rw [hAbove, h.starts]
  · intro q hq
    rw [hAbove]
    rcases List.mem_append.mp hq with hq | hq
    · have hBound := row_of_mem_sitesAll hq
      rw [feeds_reverse]
      simp only [feeds] at hBound ⊢
      omega
    · rcases List.mem_append.mp hq with hq | hq
      · obtain ⟨heading, _, rfl⟩ := Option.map_eq_some_iff.mp (Option.mem_toList.mp hq)
        exact Nat.le_add_right _ _
      · exact h.rows q hq
  · have hHeading := Renewed.heading?_eq ⟨hRegular, .inr h.refilled⟩
    have hNamed' : c'.isNamed = true := (isNamed_congr hLabel).trans hNamed
    rw [parts, sitesAll_append, sitesAll_cons, if_pos hNamed', sites_eq, hHeading, List.append_nil,
      h.sites]
    simp
  · rw [hAbove]
    exact h.lowered.append (lowered_after hNode hKind hLabel (hNext h.text) (hNext h.text') back).add

/-- A class among those of a node is declared by a part of it, or further inside. -/
theorem exists_refit (hExchange : Exchange old new) (hNear : ∀ n ∈ near, n.isLoose = true)
    (hBefore : s.before = near.reverse ++ (old.reverse ++ front.reverse)) {n : Node}
    (hRegular : n.Regular) {base : Nat} {P Q : List Site}
    (hSites : sitesAll base [] n.parts = P ++ s :: Q) :
    ∃ n' Q' above below, Refit old new front near base n n' P s Q Q' above below := by
  induction hSize : n.size using Nat.strong_induction_on generalizing n base P Q with
  | _ size ih =>
    cases n with
    | gap | leaf => simp [parts, sitesAll, placesAll] at hSites
    | branch label parts =>
      obtain ⟨ahead, c, back, P', Q', rfl, hNamed, hHere, rfl, rfl⟩ := exists_part hSites
      rw [List.append_nil] at hHere ⊢
      have hChild := hRegular.part (n := c) (by simp)
      have hInner {P₂ : List Site} (hc : sitesAll (base + feeds ahead.reverse) [] c.parts = P₂ ++ s :: Q')
          (hP : P' = (c.heading?.map (Site.mk base ahead.reverse)).toList ++ P₂) :
          ∃ n' Q'' above below, Refit old new front near base (.branch label (ahead ++ c :: back)) n'
            (sitesAll base [] ahead ++ P') s (Q' ++ sitesAll base (c :: ahead.reverse) back) Q''
            above below := by
        have hLess : c.size < size := by
          rw [← hSize, Node.size, sizeAll_append, sizeAll]
          omega
        obtain ⟨c', _, _, _, hRefit⟩ := ih c.size hLess hChild hc rfl
        rw [hP]
        exact ⟨_, _, _, _, refit_inside hRefit hChild hNamed⟩
      rw [sites_eq] at hHere
      cases hHeading : c.heading? with
      | none =>
        rw [hHeading] at hHere hInner
        exact hInner hHere rfl
      | some heading =>
        rw [hHeading] at hHere hInner
        rcases List.cons_eq_append_iff.mp hHere with ⟨rfl, hSame⟩ | ⟨P₂, rfl, hc⟩
        · obtain ⟨rfl, rfl⟩ := List.cons.inj hSame
          obtain rfl : ahead = front ++ (old ++ near) := by
            rw [← List.reverse_inj, show ahead.reverse = _ from hBefore]
            simp
          obtain ⟨n', Q'', hRefit⟩ := exists_refit_here label base back hExchange hNear hNamed hHeading
          rw [List.append_nil]
          exact ⟨n', Q'', _, _, hRefit⟩
        · exact hInner hc rfl

/-- A tree in which the comment of a class is put in or changed. -/
theorem exists_refit_root (hExchange : Exchange old new) (hNear : ∀ n ∈ near, n.isLoose = true)
    (hBefore : s.before = near.reverse ++ (old.reverse ++ front.reverse)) {root : Node}
    (hRegular : root.Regular) {P Q : List Site} (hSites : root.sites 0 [] = P ++ s :: Q) :
    ∃ root' above below, Refilled root root' ∧ root.text = above ++ (textAll old ++ below) ∧
      root'.text = above ++ (textAll new ++ below) ∧ s.base + feeds front = lineBreaks above ∧
      (∀ q ∈ P, q.row ≤ lineBreaks above) ∧ ∃ Q', root'.sites 0 [] =
        P ++ { s with before := near.reverse ++ (new.reverse ++ front.reverse) } :: Q' ∧
      Lowered (lineBreaks above + feeds old) (lineBreaks above + feeds new) Q Q' := by
  have hHead : ∀ q ∈ (root.heading?.map (Site.mk 0 [])).toList, q.row = 0 ∧ q ≠ s := by
    intro q hq
    obtain ⟨heading, _, rfl⟩ := Option.map_eq_some_iff.mp (Option.mem_toList.mp hq)
    refine ⟨rfl, ?_⟩
    rintro rfl
    obtain ⟨_, hNone⟩ := List.append_eq_nil_iff.mp hBefore.symm
    exact hExchange.old_ne_nil (List.reverse_eq_nil_iff.mp (List.append_eq_nil_iff.mp hNone).1)
  rw [sites_eq] at hSites
  obtain ⟨P', rfl, hInner⟩ : ∃ P', P = (root.heading?.map (Site.mk 0 [])).toList ++ P' ∧
      sitesAll (0 + feeds []) [] root.parts = P' ++ s :: Q := by
    rcases List.append_eq_append_iff.mp hSites with ⟨P', hP, hRest⟩ | ⟨Q', hRoot, hRest⟩
    · exact ⟨P', hP, hRest⟩
    · rcases List.cons_eq_append_iff.mp hRest with ⟨rfl, hRest⟩ | ⟨Q'', rfl, _⟩
      · exact ⟨[], by simpa using hRoot.symm, hRest.symm⟩
      · exact absurd rfl (hHead s (by simp [hRoot])).2
  obtain ⟨root', Q', above, below, h⟩ := exists_refit hExchange hNear hBefore hRegular hInner
  have hBase : 0 + feeds [] + lineBreaks above = lineBreaks above := Nat.zero_add _
  have hStarts := h.starts
  have hRows := h.rows
  have hLowered := h.lowered
  rw [hBase] at hStarts hRows hLowered
  refine ⟨root', above, below, h.refilled, h.text, h.text', hStarts, ?_, Q', ?_, hLowered⟩
  · intro q hq
    rcases List.mem_append.mp hq with hq | hq
    · rw [(hHead q hq).1]
      exact Nat.zero_le _
    · exact hRows q hq
  · rw [sites_eq, Renewed.heading?_eq ⟨hRegular, .inr h.refilled⟩, h.sites, List.append_assoc]

end

end DocWiring.Php
