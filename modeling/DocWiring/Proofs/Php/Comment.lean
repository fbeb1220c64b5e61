import DocWiring.Php.Reading
import DocWiring.Php.Sound
import DocWiring.Proofs.DocBlock.Sealed
import DocWiring.Proofs.Php.Scanning

/-! # Texts of comments

A block comment ends where it is closed first.  If a star follows the sign that opens it, it is a doc
comment.
-/

namespace DocWiring.Php

open DocBlock (closing Unclosed)

theorem blockCommentWidth?_append {body : List Char} (h : Unclosed body) (r : List Char) :
    blockCommentWidth? (body ++ closing ++ r) = some (body.length + 2) := by
  induction body with
  | nil => rfl
  | cons c body ih =>
    have hRest : Unclosed body := fun hInfix => h (List.infix_cons hInfix)
    rw [List.cons_append, List.cons_append, blockCommentWidth?_cons, if_neg, ih hRest]
    · rfl
    · rintro ⟨rfl, hHead⟩
      cases body with
      | nil => simp [closing] at hHead
      | cons d body =>
        obtain rfl : d = '/' := by simpa using hHead
        exact h ⟨[], body ++ ['*'], rfl⟩

theorem exists_of_blockCommentWidth? {cs : List Char} {n : Nat} (h : blockCommentWidth? cs = some n) :
    ∃ body r, cs = body ++ closing ++ r ∧ n = body.length + 2 ∧ Unclosed body := by
  induction cs generalizing n with
  | nil => cases h
  | cons c cs ih =>
    rw [blockCommentWidth?_cons] at h
    split at h
    next hClose =>
      obtain ⟨rfl, hHead⟩ := hClose
      obtain ⟨r, rfl⟩ := List.head?_eq_some_iff.mp hHead
      exact ⟨[], r, rfl, (Option.some.inj h).symm, by unfold Unclosed closing; decide⟩
    next hOpen =>
      obtain ⟨m, hm, rfl⟩ := Option.map_eq_some_iff.mp h
      obtain ⟨body, r, rfl, rfl, hBody⟩ := ih hm
      refine ⟨c :: body, r, rfl, rfl, ?_⟩
      intro hInfix
      rcases List.infix_cons_iff.mp hInfix with ⟨t, hPrefix⟩ | hLater
      · apply hOpen
        obtain ⟨rfl, hRest⟩ := List.cons.inj hPrefix
        cases body with
        | nil => simp at hRest
        | cons d body => exact ⟨rfl, by simpa using (List.cons.inj hRest).1.symm⟩
      · exact hBody hLater

/-- A whole block comment between the signs that open and close it. -/
theorem exists_body_of_closesLast {rest : List Char} (h : Node.closesLast ('/' :: '*' :: rest) = true) :
    ∃ body, rest = body ++ closing ∧ Unclosed body := by
  have hWidth : blockCommentWidth? rest = some rest.length := by simpa [Node.closesLast] using h
  obtain ⟨body, r, rfl, hLength, hUnclosed⟩ := exists_of_blockCommentWidth? hWidth
  have hNil : r = [] := by
    rw [← List.length_eq_zero_iff]
    simp only [List.length_append, closing, List.length_cons, List.length_nil] at hLength
    omega
  exact ⟨body, by rw [hNil, List.append_nil], hUnclosed⟩

theorem closesLast_of_unclosed {body : List Char} (h : Unclosed body) :
    Node.closesLast ('/' :: '*' :: (body ++ closing)) = true := by
  have hWidth := blockCommentWidth?_append h []
  have hLength : (body ++ closing).length = body.length + 2 := List.length_append
  rw [List.append_nil, ← hLength] at hWidth
  exact beq_iff_eq.mpr hWidth

theorem exists_of_isDocText {text : List Char} (h : isDocText text = true) :
    ∃ r, text = '/' :: '*' :: '*' :: r := by
  rw [isDocText, Bool.and_eq_true, List.isPrefixOf_iff_prefix] at h
  obtain ⟨⟨r, hr⟩, _⟩ := h
  exact ⟨r, hr.symm⟩

/-- A comment with a star after the sign that opens it is a doc comment, if another sign closes it. -/
theorem isDocText_of_unclosed {body : List Char} (hBody : Unclosed body) (hStar : body.head? = some '*') :
    isDocText ('/' :: '*' :: (body ++ closing)) = true := by
  obtain ⟨f, rfl⟩ := List.head?_eq_some_iff.mp hStar
  have hNext : (f ++ closing).head? ≠ some '/' := by
    intro hSlash
    cases f with
    | nil => simp [closing] at hSlash
    | cons d f =>
      obtain rfl : d = '/' := by simpa using hSlash
      exact hBody ⟨[], f ++ ['*'], rfl⟩
  rw [isDocText, Bool.and_eq_true, Bool.not_eq_true']
  constructor
  · rfl
  · cases h : f ++ closing with
    | nil => simp [closing] at h
    | cons d r =>
      have hd : d ≠ '/' := by simpa [h] using hNext
      have hText : '/' :: '*' :: ('*' :: f ++ closing) = '/' :: '*' :: '*' :: d :: r := by
        rw [List.cons_append, h]
      rw [hText]
      simp [List.isPrefixOf, hd.symm]

end DocWiring.Php
