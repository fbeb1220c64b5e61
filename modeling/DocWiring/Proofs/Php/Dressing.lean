import DocWiring.Php.File
import DocWiring.Proofs.Php.Places
import Mathlib.Data.List.Forall2
import Mathlib.Data.List.Induction
import Mathlib.Data.List.TakeWhile

/-! # What is passed over comes back to its place

A node is bare without what has been passed over.  From the bare node and its lexemes, the node itself
is built again, as long as it begins and ends with a token.
-/

namespace DocWiring.Php

/-! ## Leaves and lexemes -/

namespace Lexeme

variable {l : Lexeme} {n : Node}

theorem text_of_makes (h : l.makes n = true) : n.text = l.text := by
  cases n with
  | gap text =>
    obtain ⟨_, hText⟩ := (Bool.and_eq_true _ _).mp h
    exact (beq_iff_eq.mp hText).symm
  | leaf label text =>
    simp only [makes, Bool.and_eq_true] at h
    exact (beq_iff_eq.mp h.1.1).symm
  | branch => cases h

theorem piece_of_makes (h : l.makes n = true) (hPassed : l.isPassed = true) : l.piece = n := by
  cases n with
  | gap text =>
    obtain ⟨hKind, hText⟩ := (Bool.and_eq_true _ _).mp h
    rw [piece, if_pos (beq_iff_eq.mp hKind), beq_iff_eq.mp hText]
  | leaf label text =>
    simp only [makes, Bool.and_eq_true, hPassed, if_true, beq_iff_eq, bne_iff_ne] at h
    obtain ⟨⟨hText, hKind⟩, hLabel⟩ := h
    rw [piece, if_neg hKind, hText, hLabel]
  | branch => cases h

theorem isPassed_piece (h : l.isPassed = true) : l.piece.isPassed = true := by
  obtain ⟨kind, text⟩ := l
  cases kind with
  | blank | openTag | comment => rfl
  | _ => simp [isPassed] at h

theorem isPassed_of_makes (h : l.makes n = true) : n.isPassed = l.isPassed := by
  cases hPassed : l.isPassed with
  | true => rw [← piece_of_makes h hPassed, isPassed_piece hPassed]
  | false =>
    cases n with
    | gap text =>
      obtain ⟨hKind, _⟩ := (Bool.and_eq_true _ _).mp h
      simp [isPassed, beq_iff_eq.mp hKind] at hPassed
    | leaf label text =>
      simp only [makes, Bool.and_eq_true, hPassed, Bool.false_eq_true, if_false, bne_iff_ne] at h
      simp [Node.isPassed, h.2.1, h.2.2]
    | branch => cases h

end Lexeme

@[simp] theorem textOf_nil : textOf [] = [] :=
  rfl

@[simp] theorem textOf_cons (l : Lexeme) (ls : List Lexeme) : textOf (l :: ls) = l.text ++ textOf ls :=
  rfl

@[simp] theorem textOf_append (ls ms : List Lexeme) : textOf (ls ++ ms) = textOf ls ++ textOf ms := by
  simp [textOf]

theorem makeAll_iff {ls : List Lexeme} {ns : List Node} :
    makeAll ls ns = true ↔ List.Forall₂ (fun l n => l.makes n = true) ls ns := by
  induction ls generalizing ns with
  | nil => cases ns <;> simp [makeAll]
  | cons l ls ih => cases ns <;> simp [makeAll, ih]

theorem exists_of_makeAll_append {ls : List Lexeme} {ms ns : List Node} (h : makeAll ls (ms ++ ns) = true) :
    ∃ ls₁ ls₂, ls = ls₁ ++ ls₂ ∧ makeAll ls₁ ms = true ∧ makeAll ls₂ ns = true := by
  simp only [makeAll_iff] at h ⊢
  exact ⟨ls.take ms.length, ls.drop ms.length, (List.take_append_drop _ _).symm,
    List.forall₂_take_append _ _ _ h, List.forall₂_drop_append _ _ _ h⟩

theorem makeAll_append {ls₁ ls₂ : List Lexeme} {ms ns : List Node} (h : makeAll ls₁ ms = true)
    (h' : makeAll ls₂ ns = true) : makeAll (ls₁ ++ ls₂) (ms ++ ns) = true := by
  rw [makeAll_iff] at h h' ⊢
  exact List.rel_append h h'

theorem exists_of_makeAll_singleton {ls : List Lexeme} {n : Node} (h : makeAll ls [n] = true) :
    ∃ l, ls = [l] ∧ l.makes n = true := by
  cases makeAll_iff.mp h with
  | cons hHead hRest =>
    cases hRest
    exact ⟨_, rfl, hHead⟩

theorem textAll_of_makeAll {ls : List Lexeme} {ns : List Node} (h : makeAll ls ns = true) :
    Node.textAll ns = textOf ls := by
  rw [makeAll_iff] at h
  induction h with
  | nil => rfl
  | cons hHead _ ih => rw [Node.textAll, textOf_cons, ih, Lexeme.text_of_makes hHead]

namespace Node

theorem fringeAll_append (ms ns : List Node) : fringeAll (ms ++ ns) = fringeAll ms ++ fringeAll ns := by
  induction ms with
  | nil => rfl
  | cons m ms ih => rw [List.cons_append, fringeAll, fringeAll, ih, List.append_assoc]

theorem allTight_append (ms ns : List Node) : allTight (ms ++ ns) = (allTight ms && allTight ns) := by
  induction ms with
  | nil => rfl
  | cons m ms ih => rw [List.cons_append, allTight, allTight, ih, Bool.and_assoc]

mutual

theorem textAll_fringe : (n : Node) → textAll n.fringe = n.text
  | gap _ => List.append_nil _
  | leaf _ _ => List.append_nil _
  | branch _ parts => textAll_fringeAll parts

theorem textAll_fringeAll : (ns : List Node) → textAll (fringeAll ns) = textAll ns
  | [] => rfl
  | n :: ns => by rw [fringeAll, textAll_append, textAll_fringe n, textAll_fringeAll ns, textAll]

end

theorem fringe_of_isPassed {n : Node} (h : n.isPassed = true) : n.fringe = [n] := by
  cases n with
  | gap | leaf => rfl
  | branch => cases h

/-! ## Bare nodes -/

mutual

/-- A node without all that has been passed over. -/
def bare : Node → Node
  | branch label parts => branch label (bareAll parts)
  | n => n

def bareAll : List Node → List Node
  | [] => []
  | n :: ns => if n.isPassed then bareAll ns else n.bare :: bareAll ns

end

theorem bareAll_append (ms ns : List Node) : bareAll (ms ++ ns) = bareAll ms ++ bareAll ns := by
  induction ms with
  | nil => rfl
  | cons m ms ih =>
    rw [List.cons_append, bareAll, bareAll, ih]
    split <;> rfl

theorem bareAll_of_isPassed {ns : List Node} (h : ∀ n ∈ ns, n.isPassed = true) : bareAll ns = [] := by
  induction ns with
  | nil => rfl
  | cons n ns ih =>
    obtain ⟨hn, hRest⟩ := List.forall_mem_cons.mp h
    rw [bareAll, if_pos hn, ih hRest]

theorem bareAll_ne_nil {ns : List Node} {n : Node} (hn : n ∈ ns) (h : n.isPassed = false) :
    bareAll ns ≠ [] := by
  obtain ⟨front, back, rfl⟩ := List.append_of_mem hn
  rw [bareAll_append, bareAll, h]
  simp

mutual

theorem isBare_bare : (n : Node) → n.isPassed = false → n.bare.isBare = true
  | gap _, h => by cases h
  | leaf _ _, h => by simp [bare, isBare, h]
  | branch _ parts, _ => allBare_bareAll parts

theorem allBare_bareAll : (ns : List Node) → allBare (bareAll ns) = true
  | [] => rfl
  | n :: ns => by
    rw [bareAll]
    split
    next => exact allBare_bareAll ns
    next h => rw [allBare, isBare_bare n (by simpa using h), allBare_bareAll ns]; rfl

end

mutual

theorem bare_dress : (n : Node) → n.isBare = true → (ls : List Lexeme) →
    (n.dress ls).1.bare = n ∧ (n.dress ls).1.isPassed = false
  | gap _, h, _ => by cases h
  | leaf _ _, h, _ => ⟨rfl, by simpa [isBare, dress] using h⟩
  | branch label parts, h, ls => ⟨congrArg (branch label) (bareAll_dressAll parts h ls), rfl⟩

theorem bareAll_dressAll : (ns : List Node) → allBare ns = true → (ls : List Lexeme) →
    bareAll (dressAll ns ls).1 = ns
  | [], _, _ => rfl
  | n :: ns, h, ls => by
    obtain ⟨hn, hRest⟩ := (Bool.and_eq_true _ _).mp h
    obtain ⟨hBare, hPassed⟩ := bare_dress n hn (ls.dropWhile Lexeme.isPassed)
    have hGap : ∀ m ∈ (ls.takeWhile Lexeme.isPassed).map Lexeme.piece, m.isPassed = true := by
      intro m hm
      obtain ⟨l, hl, rfl⟩ := List.mem_map.mp hm
      exact Lexeme.isPassed_piece (List.mem_takeWhile_imp hl)
    dsimp only [dressAll]
    rw [bareAll_append, bareAll_of_isPassed hGap, List.nil_append, bareAll, hPassed, hBare,
      bareAll_dressAll ns hRest]
    rfl

end

/-! ## Dressing a bare node -/

theorem dressAll_cons_passed {l : Lexeme} (hl : l.isPassed = true) {ns : List Node} (hNil : ns ≠ [])
    (ls : List Lexeme) :
    dressAll ns (l :: ls) = (l.piece :: (dressAll ns ls).1, (dressAll ns ls).2) := by
  obtain ⟨n, ns, rfl⟩ := List.exists_cons_of_ne_nil hNil
  simp [dressAll, hl]

theorem dressAll_cons_token {l : Lexeme} (hl : l.isPassed = false) (n : Node) (ns : List Node)
    (ls : List Lexeme) : dressAll (n :: ns) (l :: ls) =
      ((n.dress (l :: ls)).1 :: (dressAll ns (n.dress (l :: ls)).2).1,
        (dressAll ns (n.dress (l :: ls)).2).2) := by
  simp [dressAll, hl]

/-- A node that begins with a token has one as its first lexeme. -/
theorem exists_token (n : Node) (hTight : n.isTight = true) (hPassed : n.isPassed = false)
    {ls : List Lexeme} (h : makeAll ls n.fringe = true) :
    ∃ l rest, ls = l :: rest ∧ l.isPassed = false := by
  cases n with
  | gap => cases hPassed
  | leaf label text =>
    obtain ⟨l, rfl, hMakes⟩ := exists_of_makeAll_singleton h
    exact ⟨l, [], rfl, (Lexeme.isPassed_of_makes hMakes).symm.trans hPassed⟩
  | branch label parts =>
    simp only [isTight, Bool.and_eq_true] at hTight
    cases parts with
    | nil => simp at hTight
    | cons part parts =>
      obtain ⟨ls₁, ls₂, rfl, hFirst, _⟩ := exists_of_makeAll_append h
      obtain ⟨l, rest, rfl, hl⟩ := exists_token part ((Bool.and_eq_true _ _).mp hTight.2).1
        (by simpa using hTight.1.1) hFirst
      exact ⟨l, rest ++ ls₂, rfl, hl⟩
termination_by sizeOf n

mutual

/-- A node is built again from the bare one and its lexemes. -/
theorem dress_bare : (n : Node) → n.isTight = true → n.isPassed = false → (ls : List Lexeme) →
    makeAll ls n.fringe = true → (rest : List Lexeme) → n.bare.dress (ls ++ rest) = (n, rest)
  | gap _, _, h, _, _, _ => by cases h
  | leaf label text, _, _, ls, hMakes, rest => by
    obtain ⟨l, rfl, _⟩ := exists_of_makeAll_singleton hMakes
    rfl
  | branch label parts, hTight, _, ls, hMakes, rest => by
    simp only [isTight, Bool.and_eq_true] at hTight
    have hLast : ∀ n ∈ parts.getLast?, n.isPassed = false := by
      intro n hn
      have hAny := hTight.1.2
      rw [Option.mem_def.mp hn] at hAny
      simpa using hAny
    rw [bare, dress, dressAll_bareAll parts hTight.2 hLast ls hMakes rest]

theorem dressAll_bareAll : (ns : List Node) → allTight ns = true →
    (∀ n ∈ ns.getLast?, n.isPassed = false) → (ls : List Lexeme) → makeAll ls (fringeAll ns) = true →
    (rest : List Lexeme) → dressAll (bareAll ns) (ls ++ rest) = (ns, rest)
  | [], _, _, ls, hMakes, rest => by
    cases makeAll_iff.mp hMakes
    rfl
  | n :: ns, hTight, hLast, ls, hMakes, rest => by
    obtain ⟨hn, hns⟩ := (Bool.and_eq_true _ _).mp hTight
    obtain ⟨ls₁, ls₂, rfl, hFirst, hRest⟩ := exists_of_makeAll_append hMakes
    have hLast' : ∀ m ∈ ns.getLast?, m.isPassed = false := by
      intro m hm
      apply hLast
      rw [List.getLast?_cons, Option.mem_def.mp hm]
      rfl
    have hAgain := dressAll_bareAll ns hns hLast' ls₂ hRest rest
    rw [List.append_assoc]
    cases hPassed : n.isPassed with
    | true =>
      rw [fringe_of_isPassed hPassed] at hFirst
      obtain ⟨l, rfl, hl⟩ := exists_of_makeAll_singleton hFirst
      have hToken : l.isPassed = true := (Lexeme.isPassed_of_makes hl).symm.trans hPassed
      have hNil : ns ≠ [] := by
        rintro rfl
        rw [hLast n rfl] at hPassed
        cases hPassed
      obtain ⟨m, hm⟩ := Option.isSome_iff_exists.mp (List.getLast?_isSome.mpr hNil)
      have hBare : bareAll ns ≠ [] := bareAll_ne_nil (List.mem_of_getLast? hm) (hLast' m hm)
      rw [bareAll, if_pos hPassed, List.singleton_append, dressAll_cons_passed hToken hBare, hAgain,
        Lexeme.piece_of_makes hl hToken]
    | false =>
      have hHere := dress_bare n hn hPassed ls₁ hFirst (ls₂ ++ rest)
      obtain ⟨l, more, rfl, hl⟩ := exists_token n hn hPassed hFirst
      rw [List.cons_append] at hHere ⊢
      rw [bareAll, if_neg (by simp [hPassed]), dressAll_cons_token hl, hHere, hAgain]

end

theorem exists_trailing (ns : List Node) : ∃ front back, ns = front ++ back ∧
    (∀ n ∈ front.getLast?, n.isPassed = false) ∧ ∀ n ∈ back, n.isPassed = true := by
  induction ns using List.reverseRecOn with
  | nil => exact ⟨[], [], rfl, by simp, by simp⟩
  | append_singleton ns n ih =>
    cases hn : n.isPassed with
    | true =>
      obtain ⟨front, back, rfl, hFront, hBack⟩ := ih
      refine ⟨front, back ++ [n], List.append_assoc _ _ _, hFront, fun m hm => ?_⟩
      rcases List.mem_append.mp hm with hm | hm
      · exact hBack m hm
      · rwa [List.mem_singleton.mp hm]
    | false => exact ⟨ns ++ [n], [], (List.append_nil _).symm, by simp [hn], by simp⟩

/-- The parts of a file are built again, and what is left has been passed over. -/
theorem dressAll_bareAll_file {ns : List Node} (hTight : allTight ns = true) {ls : List Lexeme}
    (hMakes : makeAll ls (fringeAll ns) = true) :
    (dressAll (bareAll ns) ls).1 ++ (dressAll (bareAll ns) ls).2.map Lexeme.piece = ns ∧
      ∀ l ∈ (dressAll (bareAll ns) ls).2, l.isPassed = true := by
  obtain ⟨front, back, rfl, hFront, hBack⟩ := exists_trailing ns
  rw [fringeAll_append] at hMakes
  obtain ⟨ls₁, ls₂, rfl, hFirst, hRest⟩ := exists_of_makeAll_append hMakes
  rw [allTight_append, Bool.and_eq_true] at hTight
  rw [bareAll_append, bareAll_of_isPassed hBack, List.append_nil,
    dressAll_bareAll front hTight.1 hFront ls₁ hFirst ls₂]
  clear hMakes hFirst hTight
  induction back generalizing ls₂ with
  | nil =>
    cases makeAll_iff.mp hRest
    simp
  | cons n back ih =>
    obtain ⟨hn, hBack⟩ := List.forall_mem_cons.mp hBack
    rw [fringeAll, fringe_of_isPassed hn] at hRest
    obtain ⟨_, ls₃, rfl, hHead, hTail⟩ := exists_of_makeAll_append hRest
    obtain ⟨l, rfl, hl⟩ := exists_of_makeAll_singleton hHead
    have hPassed : l.isPassed = true := (Lexeme.isPassed_of_makes hl).symm.trans hn
    obtain ⟨hParts, hAll⟩ := ih hBack ls₃ hTail
    refine ⟨?_, List.forall_mem_cons.mpr ⟨hPassed, hAll⟩⟩
    rw [List.append_cancel_left_eq] at hParts ⊢
    rw [List.cons_append, List.map_cons, Lexeme.piece_of_makes hl hPassed]
    exact congrArg (n :: ·) hParts

end Node

end DocWiring.Php
