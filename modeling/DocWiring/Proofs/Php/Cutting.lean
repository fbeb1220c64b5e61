import DocWiring.Proofs.Php.Comment
import DocWiring.Proofs.Php.Dressing
import DocWiring.Proofs.Php.Lexing

/-! # Texts that are cut into lexemes

A text is cut when lexemes follow one another up to its end.  White space and block comments leave
the modes as they are, so in code they can be put in and taken out.
-/

namespace DocWiring.Php

/-- From these modes on, the text is cut into these lexemes and may end there. -/
inductive Lexed : List Mode → List Char → List Lexeme → Prop
  | done {modes : List Mode} (hEnd : mayEnd modes = true) : Lexed modes [] []
  | next {modes : List Mode} {cs : List Char} {s : Step} {ls : List Lexeme}
      (hStep : step? modes cs = some s) (hPos : s.width ≠ 0) (hNil : cs ≠ [])
      (hRest : Lexed s.modes (cs.drop s.width) ls) :
      Lexed modes cs (⟨s.kind, cs.take s.width⟩ :: ls)

namespace Lexed

variable {modes inner : List Mode} {cs t u : List Char} {l : Lexeme} {ls : List Lexeme}

theorem textOf_eq (h : Lexed modes cs ls) : textOf ls = cs := by
  induction h with
  | done => rfl
  | next _ _ _ _ ih => rw [textOf_cons, ih, List.take_append_drop]

theorem cut_eq (h : Lexed modes cs ls) {fuel : Nat} (hFuel : cs.length ≤ fuel) :
    cut fuel modes cs = ⟨ls, true⟩ := by
  induction h generalizing fuel with
  | done hEnd => cases fuel <;> simp [cut, hEnd]
  | @next modes cs s ls hStep hPos hNil hRest ih =>
    obtain ⟨c, r, rfl⟩ := List.exists_cons_of_ne_nil hNil
    cases fuel with
    | zero => simp at hFuel
    | succ n =>
      have hLess : ((c :: r).drop s.width).length ≤ n := by
        rw [List.length_drop]
        rw [List.length_cons] at hFuel ⊢
        omega
      rw [cut, hStep]
      simp only [if_neg hPos, ih hLess]

theorem of_cut {fuel : Nat} (h : (cut fuel modes cs).complete = true) :
    Lexed modes cs (cut fuel modes cs).lexemes := by
  induction fuel generalizing modes cs with
  | zero =>
    cases cs with
    | nil =>
      rw [cut] at h
      exact .done h
    | cons c r => simp [cut] at h
  | succ fuel ih =>
    cases cs with
    | nil =>
      rw [cut] at h
      exact .done h
    | cons c r =>
      unfold cut at h ⊢
      split
      next hStep => simp [hStep] at h
      next s hStep =>
        simp only [hStep] at h
        split
        next hZero => simp [hZero] at h
        next hPos =>
          simp only [hPos, if_false] at h
          exact .next hStep hPos (by simp) (ih h)

theorem cons {kind : Kind} (hStep : step? modes (t ++ u) = some ⟨kind, t.length, inner⟩)
    (hNil : t ≠ []) (hRest : Lexed inner u ls) : Lexed modes (t ++ u) (⟨kind, t⟩ :: ls) := by
  have hTail : Lexed inner ((t ++ u).drop t.length) ls := by rwa [List.drop_left]
  have hNext := Lexed.next hStep (by simpa using hNil) (by simp [hNil]) hTail
  rwa [List.take_left] at hNext

/-- What the first lexeme comes from. -/
theorem exists_step (h : Lexed modes cs (l :: ls)) :
    ∃ s, step? modes cs = some s ∧ cs = l.text ++ textOf ls ∧ l.text ≠ [] ∧ l.kind = s.kind ∧
      (ls ≠ [] → s.width = l.text.length) ∧ Lexed s.modes (textOf ls) ls := by
  cases h with
  | @next _ _ s _ hStep hPos hNil hRest =>
    have hText := hRest.textOf_eq
    refine ⟨s, hStep, ?_, ?_, rfl, ?_, hText.symm ▸ hRest⟩
    · rw [hText, List.take_append_drop]
    · simpa [hPos] using hNil
    · intro hMore
      have hLeft : cs.drop s.width ≠ [] := by
        intro hEnd
        rw [hEnd] at hRest
        cases hRest with
        | done => exact hMore rfl
        | next _ _ hNil => exact hNil rfl
      have hLess : s.width < cs.length := by simpa using hLeft
      simp only [List.length_take]
      omega

theorem step_isSome (h : Lexed modes cs ls) (hNil : cs ≠ []) : (step? modes cs).isSome = true := by
  cases h with
  | done => exact absurd rfl hNil
  | next hStep => simp [hStep]

theorem of_append {front back : List Lexeme} (h : Lexed modes cs (front ++ back)) :
    ∃ inner, Lexed inner (textOf back) back := by
  induction front generalizing modes cs with
  | nil => exact ⟨modes, h.textOf_eq.symm ▸ h⟩
  | cons l front ih =>
    obtain ⟨_, _, _, _, _, _, hRest⟩ := h.exists_step
    exact ih hRest

/-- Lexemes before a newline stay when what follows the newline changes. -/
theorem replace {w r r' : List Char} {front old new : List Lexeme}
    (hPlain : ∀ m ∈ modes, m.Plain) (h : Lexed modes cs (front ++ old))
    (hOld : textOf old = w ++ '\n' :: r) (hNew : textOf new = w ++ '\n' :: r')
    (hRest : ∀ inner, (∀ m ∈ inner, m.Plain) → Lexed inner (textOf old) old →
      Lexed inner (textOf new) new) :
    Lexed modes (textOf (front ++ new)) (front ++ new) := by
  induction front generalizing modes cs with
  | nil =>
    have hText := h.textOf_eq
    rw [List.nil_append] at h hText ⊢
    exact hRest modes hPlain (hText ▸ h)
  | cons l front ih =>
    rw [List.cons_append] at h
    obtain ⟨s, hStep, hText, hNil, hKind, hWidth, hTail⟩ := h.exists_step
    -- The first lexeme ends before the newline, and the text goes on after it: it stays what it is.
    have hMore : front ++ old ≠ [] := by
      intro hEmpty
      rw [(List.append_eq_nil_iff.mp hEmpty).2] at hOld
      simp at hOld
    have hLength := hWidth hMore
    have hBefore : cs = (l.text ++ textOf front ++ w) ++ '\n' :: r := by
      rw [hText, textOf_append, hOld]
      simp
    have hLeft : textOf (front ++ old) ≠ [] := by
      rw [textOf_append, hOld]
      simp
    have hNext : (step? s.modes (cs.drop s.width)).isSome = true := by
      rw [hText, hLength, List.drop_left]
      exact hTail.step_isSome hLeft
    have hSame : step? modes (l.text ++ textOf (front ++ new)) = some s := by
      have hAgain := step?_of_le hPlain (hBefore ▸ hStep) (by simpa [hLength] using hNil)
        (by simp [hLength]) (hBefore ▸ hNext) r'
      rw [textOf_append, hNew]
      simpa using hAgain
    obtain ⟨kind, width, after⟩ := s
    obtain ⟨k, text⟩ := l
    obtain rfl : width = text.length := hLength
    obtain rfl : k = kind := hKind
    exact .cons hSame hNil (ih (plain_of_step? hPlain hStep) hTail)

end Lexed

theorem lexemes_eq_iff {text : List Char} {ls : List Lexeme} :
    lexemes text = ⟨ls, true⟩ ↔ Lexed [.html] text ls := by
  constructor
  · intro h
    have hCut : (lexemes text).complete = true → Lexed [.html] text (lexemes text).lexemes :=
      Lexed.of_cut
    rw [h] at hCut
    exact hCut rfl
  · intro h
    exact h.cut_eq (Nat.le_refl _)

/-! ## White space -/

theorem isSpace_ne {c d : Char} (hc : isSpace c = true) (hd : isSpace d = false) : c ≠ d := by
  rintro rfl
  rw [hc] at hd
  cases hd

theorem step?_blank {modes : List Mode} (h : InCode modes) {t u : List Char} (hNil : t ≠ [])
    (hSpace : ∀ c ∈ t, isSpace c = true) (hStop : ∀ c ∈ u.head?, isSpace c = false) :
    step? modes (t ++ u) = some ⟨.blank, t.length, modes⟩ := by
  obtain ⟨mode, outer, rfl, hCode⟩ := step?_of_inCode h
  obtain ⟨c, r, rfl⟩ := List.exists_cons_of_ne_nil hNil
  obtain ⟨hc, hr⟩ := List.forall_mem_cons.mp hSpace
  have hWidth : (r ++ u).takeWhile isSpace = r := by
    rw [List.takeWhile_append_of_pos hr]
    cases u with
    | nil => simp
    | cons d u => simp [hStop d rfl]
  rw [hCode, List.cons_append, codeStep?_cons, if_neg fun h => isSpace_ne hc (by decide) h.1,
    if_neg (isSpace_ne hc (by decide)), if_neg (isSpace_ne hc (by decide)),
    if_neg fun h => isSpace_ne hc (by decide) h.1, if_neg fun h => isSpace_ne hc (by decide) h.1,
    if_neg (isSpace_ne hc (by decide)), if_pos hc, hWidth, List.length_cons, Nat.add_comm]

/-- Of white space and comments. -/
def Kind.IsLoose (k : Kind) : Prop :=
  k = .blank ∨ k = .comment

theorem codeStep?_of_isLoose {mode : Mode} {outer : List Mode} {c : Char} {r : List Char} {s : Step}
    (h : codeStep? mode outer (c :: r) = some s) (hLoose : s.kind.IsLoose) :
    s.modes = mode :: outer ∧
      (s.kind = .blank → isSpace c = true ∧ s.width = 1 + (r.takeWhile isSpace).length) ∧
      (s.kind = .comment → c = '/' → r.head? = some '*' →
        ∃ w, blockCommentWidth? r.tail = some w ∧ s.width = 2 + w) := by
  cases codeStep_of_codeStep? h with
  | blank hSpace => exact ⟨rfl, fun _ => ⟨hSpace, rfl⟩, nofun⟩
  | lineComment hStarts =>
    refine ⟨rfl, nofun, fun _ hc hHead => ?_⟩
    rcases hStarts with hHash | hSlash
    · exact absurd (hc.symm.trans hHash) (by decide)
    · exact absurd (hHead.symm.trans hSlash) (by decide)
  | blockComment hWidth => exact ⟨rfl, nofun, fun _ _ _ => ⟨_, hWidth, rfl⟩⟩
  | closeTag | embedClose | templateOpen | sign => simp [Kind.IsLoose] at hLoose
  | word hKnown => rcases hLoose with rfl | rfl <;> simp at hKnown

theorem inCode_of_isLoose {modes : List Mode} {cs : List Char} {s : Step}
    (h : step? modes cs = some s) (hLoose : s.kind.IsLoose) : InCode modes := by
  rcases modes with _ | ⟨mode, outer⟩
  · cases h
  rcases step?_cases h with ⟨hCode, _⟩ | hText
  · exact hCode
  · cases hText with
    | stays hSolid | leaves hSolid | enters hSolid => exact (hLoose.elim hSolid.1 hSolid.2).elim

namespace Lexed

variable {modes : List Mode} {cs t : List Char} {ls : List Lexeme}

theorem exists_width {kind : Kind} (h : Lexed modes cs (⟨kind, t⟩ :: ls)) :
    ∃ s, step? modes cs = some s ∧ s.kind = kind ∧ t = cs.take s.width ∧ t ≠ [] ∧
      Lexed s.modes (textOf ls) ls := by
  generalize hl : (⟨kind, t⟩ : Lexeme) = l at h
  cases h with
  | @next _ _ s _ hStep hPos hNil hRest =>
    obtain ⟨rfl, rfl⟩ := Lexeme.mk.inj hl
    exact ⟨s, hStep, rfl, rfl, by simpa [hPos] using hNil, hRest.textOf_eq.symm ▸ hRest⟩

/-- White space goes on as far as it can, and nothing else changes. -/
theorem of_blank (h : Lexed modes cs (⟨.blank, t⟩ :: ls)) :
    InCode modes ∧ t ≠ [] ∧ (∀ c ∈ t, isSpace c = true) ∧
      (∀ c ∈ (textOf ls).head?, isSpace c = false) ∧ Lexed modes (textOf ls) ls := by
  obtain ⟨s, hStep, hKind, ht, hNil, hRest⟩ := h.exists_width
  have hLoose : s.kind.IsLoose := .inl hKind
  have hCode := inCode_of_isLoose hStep hLoose
  obtain ⟨mode, outer, rfl, hSame⟩ := step?_of_inCode hCode
  rw [hSame] at hStep
  cases cs with
  | nil => cases hStep
  | cons c r =>
    obtain ⟨hModes, hBlank, _⟩ := codeStep?_of_isLoose hStep hLoose
    obtain ⟨hc, hWidth⟩ := hBlank hKind
    have hAll : s.width = ((c :: r).takeWhile isSpace).length := by
      rw [List.takeWhile_cons_of_pos hc, List.length_cons, hWidth, Nat.add_comm]
    have hTake : t = (c :: r).takeWhile isSpace := by
      rw [ht, hAll]
      exact (List.prefix_iff_eq_take.mp (List.takeWhile_prefix isSpace)).symm
    have hDrop : textOf ls = (c :: r).dropWhile isSpace := by
      have hSplit := h.textOf_eq.trans (List.takeWhile_append_dropWhile (p := isSpace)).symm
      exact List.append_cancel_left (hTake ▸ hSplit)
    refine ⟨hCode, hNil, ?_, ?_, hModes ▸ hRest⟩
    · intro d hd
      exact List.mem_takeWhile_imp (hTake ▸ hd)
    · intro d hd
      rw [hDrop] at hd
      have hStop := List.head?_dropWhile_not isSpace (c :: r)
      rw [Option.mem_def.mp hd] at hStop
      simpa using hStop

end Lexed

/-! ## Comments -/

open DocBlock (closing Unclosed)

theorem step?_comment {modes : List Mode} (h : InCode modes) {body : List Char} (hBody : Unclosed body)
    (r : List Char) : step? modes ('/' :: '*' :: (body ++ closing) ++ r) =
      some ⟨.comment, ('/' :: '*' :: (body ++ closing)).length, modes⟩ := by
  obtain ⟨mode, outer, rfl, hCode⟩ := step?_of_inCode h
  have hWidth := blockCommentWidth?_append hBody r
  have hLength : 2 + (body.length + 2) = ('/' :: '*' :: (body ++ closing)).length := by
    simp [closing]
    omega
  have hCons := codeStep?_cons mode outer '/' ('*' :: (body ++ closing ++ r))
  rw [if_neg (by simp), if_neg (by decide), if_neg (by decide), if_neg (by simp), if_pos (by simp),
    List.tail_cons, hWidth, Option.map_some, hLength] at hCons
  rw [hCode]
  exact hCons

theorem Lexed.of_comment {modes : List Mode} {cs r : List Char} {ls : List Lexeme}
    (h : Lexed modes cs (⟨.comment, '/' :: '*' :: r⟩ :: ls)) :
    InCode modes ∧ (∃ body, r = body ++ closing ∧ Unclosed body) ∧ Lexed modes (textOf ls) ls := by
  obtain ⟨s, hStep, hKind, hTake, _, hRest⟩ := h.exists_width
  have hText := h.textOf_eq
  have hLoose : s.kind.IsLoose := .inr hKind
  have hCode := inCode_of_isLoose hStep hLoose
  obtain ⟨mode, outer, rfl, hSame⟩ := step?_of_inCode hCode
  rw [textOf_cons, List.cons_append, List.cons_append] at hText
  rw [hSame, ← hText] at hStep
  obtain ⟨hModes, _, hComment⟩ := codeStep?_of_isLoose hStep hLoose
  obtain ⟨w, hw, hWidth⟩ := hComment hKind rfl rfl
  obtain ⟨body, t, hBody, rfl, hUnclosed⟩ := exists_of_blockCommentWidth? hw
  rw [List.tail_cons] at hBody
  refine ⟨hCode, ⟨body, ?_, hUnclosed⟩, hModes ▸ hRest⟩
  have hLength : s.width = ('/' :: '*' :: (body ++ closing)).length := by
    simp [hWidth, closing]
    omega
  have hBoth : '/' :: '*' :: (body ++ closing ++ t) = ('/' :: '*' :: (body ++ closing)) ++ t := rfl
  rw [← hText, hBody, hLength, hBoth, List.take_left] at hTake
  simpa using hTake

end DocWiring.Php
