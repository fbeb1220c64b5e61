import DocWiring.Source.Unit
import Mathlib.Data.List.Basic

/-! # The lines of a text

A whole line ends in a line feed and has no other.  Cutting a text gives whole lines, the last one
perhaps excepted, and lines that come from a text are the lines of their own concatenation.
-/

namespace DocWiring.Line

def Whole (l : Line) : Prop :=
  ∃ body, '\n' ∉ body ∧ l = body ++ ['\n']

/-- The two ends of line that a whole line can have. -/
def IsEol (e : List Char) : Prop :=
  e = ['\n'] ∨ e = ['\r', '\n']

theorem Whole.ne_nil {l : Line} (h : Whole l) : l ≠ [] := by
  obtain ⟨body, _, rfl⟩ := h
  simp

theorem Whole.append {t l : List Char} (hFree : '\n' ∉ t) (h : Whole l) : Whole (t ++ l) := by
  obtain ⟨body, hBody, rfl⟩ := h
  exact ⟨t ++ body, by simp [hFree, hBody], by simp⟩

/-- What follows any other character of a whole line ends the line. -/
theorem Whole.of_append_cons {t l : List Char} {c : Char} (h : Whole (t ++ c :: l))
    (hc : c ≠ '\n') : '\n' ∉ t ∧ Whole l := by
  obtain ⟨body, hBody, hLine⟩ := h
  rcases List.eq_nil_or_concat l with rfl | ⟨init, d, rfl⟩
  · exact absurd (List.append_inj_right' hLine rfl) (by simpa using hc)
  · rw [List.concat_eq_append, ← List.cons_append, ← List.append_assoc] at hLine
    obtain ⟨rfl, hEnd⟩ := List.append_inj' hLine rfl
    simp only [List.mem_append, List.mem_cons, not_or] at hBody
    refine ⟨hBody.1, init, hBody.2.2, ?_⟩
    rw [List.concat_eq_append, hEnd]

/-- The line feed of a whole line is its last character. -/
theorem Whole.not_mem_of_append {t l : List Char} (h : Whole (t ++ l)) (hNil : l ≠ []) :
    '\n' ∉ t := by
  obtain ⟨body, hBody, hLine⟩ := h
  rcases List.eq_nil_or_concat l with rfl | ⟨init, d, rfl⟩
  · exact absurd rfl hNil
  · rw [List.concat_eq_append, ← List.append_assoc] at hLine
    obtain ⟨rfl, _⟩ := List.append_inj' hLine rfl
    intro hMem
    exact hBody (List.mem_append_left init hMem)

theorem Whole.mem_of_append {t l : List Char} (h : Whole (t ++ l)) (hNil : l ≠ []) : '\n' ∈ l := by
  obtain ⟨body, _, hLine⟩ := h
  have hLast := congrArg List.getLast? hLine
  rw [List.getLast?_append_of_ne_nil _ hNil, List.getLast?_concat] at hLast
  exact List.mem_of_getLast? hLast

theorem getLast?_flatten {ls : List Line} (h : ∀ l ∈ ls, Whole l) (hNil : ls ≠ []) :
    ls.flatten.getLast? = some '\n' := by
  rcases List.eq_nil_or_concat ls with rfl | ⟨init, l, rfl⟩
  · exact absurd rfl hNil
  · obtain ⟨body, _, rfl⟩ := h l (by simp)
    simp

theorem IsEol.whole {e : List Char} (h : IsEol e) : Whole e := by
  rcases h with rfl | rfl
  · exact ⟨[], by simp, rfl⟩
  · exact ⟨['\r'], by decide, rfl⟩

theorem IsEol.ne_nil {e : List Char} (h : IsEol e) : e ≠ [] :=
  h.whole.ne_nil

/-! ## Content and end of line -/

/-- Only a lone line feed reaches back to the character before it. -/
theorem splitEol_append (t : List Char) {l : Line} (hNil : l ≠ []) (hFeed : l ≠ ['\n']) :
    splitEol (t ++ l) = (t ++ (splitEol l).1, (splitEol l).2) := by
  induction t with
  | nil => simp
  | cons c r ih =>
    have hRest : r ++ l ≠ [] := by simp [hNil]
    have hLone : r ++ l ≠ ['\n'] := by
      intro h
      rcases List.append_eq_singleton_iff.mp h with ⟨_, h⟩ | ⟨_, h⟩
      · exact hFeed h
      · exact hNil h
    rw [List.cons_append, splitEol, ih]
    · rfl
    · intro _ h
      exact hRest h
    · intro _ h
      exact hLone h

theorem content_append (t : List Char) {l : Line} (hNil : l ≠ []) (hFeed : l ≠ ['\n']) :
    content (t ++ l) = t ++ content l := by
  simp [content, splitEol_append t hNil hFeed]

theorem eol_append (t : List Char) {l : Line} (hNil : l ≠ []) (hFeed : l ≠ ['\n']) :
    eol (t ++ l) = eol l := by
  simp [eol, splitEol_append t hNil hFeed]

theorem splitEol_append_eol {t e : List Char} (he : IsEol e) (hReturn : t.getLast? ≠ some '\r') :
    splitEol (t ++ e) = (t, e) := by
  rcases he with rfl | rfl
  · rcases List.eq_nil_or_concat t with rfl | ⟨s, c, rfl⟩
    · rfl
    · have hc : c ≠ '\r' := by simpa using hReturn
      have hOne : splitEol [c, '\n'] = ([c], ['\n']) := by
        rw [splitEol]
        · rfl
        · intro _ h
          cases h
        · intro h
          exact absurd h hc
      rw [List.concat_eq_append, List.append_assoc, List.singleton_append,
        splitEol_append s (by simp) (by simp), hOne]
  · rw [splitEol_append t (by simp) (by simp)]
    simp [splitEol]

theorem content_append_isEol {t e : List Char} (he : IsEol e)
    (hReturn : t.getLast? ≠ some '\r') : content (t ++ e) = t := by
  rw [content, splitEol_append_eol he hReturn]

theorem eol_append_isEol {t e : List Char} (he : IsEol e) (hReturn : t.getLast? ≠ some '\r') :
    eol (t ++ e) = e := by
  rw [eol, splitEol_append_eol he hReturn]

theorem eol_eq_nil {l : Line} (h : '\n' ∉ l) : eol l = [] := by
  unfold eol
  fun_induction splitEol l with
  | case1 => rfl
  | case2 => simp at h
  | case3 => simp at h
  | case4 c r _ _ ih => exact ih (by simp_all)

theorem eol_eq_nil_or_isEol (l : Line) : eol l = [] ∨ IsEol (eol l) := by
  unfold eol
  fun_induction splitEol l with
  | case1 => exact .inl rfl
  | case2 => exact .inr (.inl rfl)
  | case3 => exact .inr (.inr rfl)
  | case4 c r _ _ ih => exact ih

theorem isEol_eol_append_feed (t : List Char) : IsEol (eol (t ++ ['\n'])) := by
  by_cases hReturn : t.getLast? = some '\r'
  · obtain ⟨s, rfl⟩ := List.getLast?_eq_some_iff.mp hReturn
    rw [List.append_assoc, eol_append s (by simp) (by simp)]
    exact .inr rfl
  · rw [eol_append_isEol (.inl rfl) hReturn]
    exact .inl rfl

theorem Whole.isEol {l : Line} (h : Whole l) : IsEol l.eol := by
  obtain ⟨body, _, rfl⟩ := h
  exact isEol_eol_append_feed body

theorem content_initial (l : Line) : l.content <+: l :=
  ⟨l.eol, content_append_eol l⟩

theorem not_mem_content {l : Line} (h : Whole l ∨ '\n' ∉ l) : '\n' ∉ l.content := by
  intro hMem
  rcases h with ⟨body, hBody, hLine⟩ | hFree
  · have hSplit := content_append_eol l
    obtain ⟨e, hEol⟩ : ∃ e, l.eol = e ++ ['\n'] := by
      rcases isEol_eol_append_feed body with he | he
      · exact ⟨[], hLine ▸ he⟩
      · exact ⟨['\r'], hLine ▸ he⟩
    rw [hEol, ← List.append_assoc] at hSplit
    have hInit := List.append_inj_left' (hSplit.trans hLine) rfl
    exact hBody (hInit ▸ List.mem_append_left _ hMem)
  · exact hFree ((content_initial l).subset hMem)

/-- An end of line can take a carriage return from the text before it, and no more. -/
theorem content_append_isEol_initial (t : List Char) {e : List Char} (he : IsEol e) :
    content (t ++ e) <+: t := by
  rcases he with rfl | rfl
  · obtain ⟨d, hd⟩ : ∃ d, eol (t ++ ['\n']) = d ++ ['\n'] := by
      rcases isEol_eol_append_feed t with h | h
      · exact ⟨[], h⟩
      · exact ⟨['\r'], h⟩
    have hSplit := content_append_eol (t ++ ['\n'])
    rw [hd, ← List.append_assoc] at hSplit
    exact ⟨d, List.append_inj_left' hSplit rfl⟩
  · rw [content_append t (by simp) (by simp)]
    simp [content, splitEol]

/-! ## Cutting a text -/

theorem ofText_append {l : Line} (h : Whole l) (t : List Char) :
    ofText (l ++ t) = l :: ofText t := by
  obtain ⟨body, hBody, rfl⟩ := h
  induction body with
  | nil => simp [ofText]
  | cons c r ih =>
    have hc : c ≠ '\n' := by rintro rfl; simp at hBody
    have hr : '\n' ∉ r := fun h => hBody (List.mem_cons_of_mem c h)
    rw [List.cons_append, List.cons_append, ofText, if_neg hc, ih hr]

theorem ofText_flatten_append {ls : List Line} (h : ∀ l ∈ ls, Whole l) (t : List Char) :
    ofText (ls.flatten ++ t) = ls ++ ofText t := by
  induction ls with
  | nil => rfl
  | cons l ls ih =>
    obtain ⟨hl, hls⟩ := List.forall_mem_cons.mp h
    rw [List.flatten_cons, List.append_assoc, ofText_append hl, ih hls, List.cons_append]

theorem ofText_flatten {ls : List Line} (h : ∀ l ∈ ls, Whole l) : ofText ls.flatten = ls := by
  simpa [ofText] using ofText_flatten_append h []

/-- The first line of a text is whole, unless it is the last one and not terminated; what follows
it is cut as before. -/
theorem ofText_cons {t : List Char} {l : Line} {ls : List Line} (h : ofText t = l :: ls) :
    ofText ls.flatten = ls ∧ l ≠ [] ∧ (Whole l ∨ ls = [] ∧ '\n' ∉ l) := by
  induction t generalizing l ls with
  | nil => cases h
  | cons c r ih =>
    unfold ofText at h
    split at h
    next =>
      obtain ⟨rfl, rfl⟩ := List.cons.inj h
      exact ⟨by rw [flatten_ofText], by simp, .inl ⟨[], by simp, rfl⟩⟩
    next hc =>
      split at h
      next =>
        obtain ⟨rfl, rfl⟩ := List.cons.inj h
        exact ⟨rfl, by simp, .inr ⟨rfl, by simpa using Ne.symm hc⟩⟩
      next m ms hRest =>
        obtain ⟨rfl, rfl⟩ := List.cons.inj h
        obtain ⟨hCut, _, hKind⟩ := ih hRest
        refine ⟨hCut, by simp, ?_⟩
        rcases hKind with hWhole | ⟨hLast, hFree⟩
        · exact .inl (hWhole.append (t := [c]) (by simpa using Ne.symm hc))
        · exact .inr ⟨hLast, by simp [hFree, Ne.symm hc]⟩

/-- The lines are those of their own text. -/
def AreCut (ls : List Line) : Prop :=
  ofText ls.flatten = ls

theorem areCut_ofText (t : List Char) : AreCut (ofText t) := by
  rw [AreCut, flatten_ofText]

theorem areCut_cons {l : Line} {ls : List Line} (h : AreCut (l :: ls)) :
    AreCut ls ∧ l ≠ [] ∧ (Whole l ∨ ls = [] ∧ '\n' ∉ l) :=
  ofText_cons h

theorem areCut_of_whole {ls : List Line} (h : ∀ l ∈ ls, Whole l) : AreCut ls :=
  ofText_flatten h

theorem AreCut.append {ls ms : List Line} (hls : ∀ l ∈ ls, Whole l) (hms : AreCut ms) :
    AreCut (ls ++ ms) := by
  rw [AreCut, List.flatten_append, ofText_flatten_append hls, hms]

theorem AreCut.drop {ls : List Line} (h : AreCut ls) (n : Nat) : AreCut (ls.drop n) := by
  induction n generalizing ls with
  | zero => exact h
  | succ n ih =>
    cases ls with
    | nil => exact h
    | cons l ls => exact ih (areCut_cons h).1

/-- Only the last line can lack its end. -/
theorem AreCut.whole_of_append {ls ms : List Line} (h : AreCut (ls ++ ms)) (hms : ms ≠ []) :
    ∀ l ∈ ls, Whole l := by
  induction ls with
  | nil => simp
  | cons l ls ih =>
    obtain ⟨hCut, _, hKind⟩ := areCut_cons h
    intro k hk
    rcases List.mem_cons.mp hk with rfl | hk
    · rcases hKind with hWhole | ⟨hNone, _⟩
      · exact hWhole
      · exact absurd (List.append_eq_nil_iff.mp hNone).2 hms
    · exact ih hCut k hk

theorem AreCut.take {ls : List Line} (h : AreCut ls) (n : Nat) : AreCut (ls.take n) := by
  by_cases hRest : ls.drop n = []
  · rwa [← List.append_nil (ls.take n), ← hRest, List.take_append_drop]
  · exact areCut_of_whole (AreCut.whole_of_append ((List.take_append_drop n ls).symm ▸ h) hRest)

theorem AreCut.last {ls : List Line} {l : Line} (h : AreCut (ls ++ [l])) :
    l ≠ [] ∧ (Whole l ∨ '\n' ∉ l) := by
  have hOne : AreCut [l] := by simpa using h.drop ls.length
  obtain ⟨_, hNil, hKind⟩ := areCut_cons hOne
  exact ⟨hNil, hKind.imp_right And.right⟩

/-! ## Counting lines -/

theorem count_flatten {ls : List Line} (h : ∀ l ∈ ls, Whole l) :
    ls.flatten.count '\n' = ls.length := by
  induction ls with
  | nil => rfl
  | cons l ls ih =>
    obtain ⟨⟨body, hBody, rfl⟩, hRest⟩ := List.forall_mem_cons.mp h
    rw [List.flatten_cons, List.count_append, ih hRest, List.count_append,
      List.count_eq_zero_of_not_mem hBody, List.length_cons]
    simp
    omega

theorem AreCut.count_line {l : Line} {ls : List Line} (h : AreCut (l :: ls)) (hMore : ls ≠ []) :
    l.count '\n' = 1 := by
  have hWhole : ∀ k ∈ [l], Whole k := by
    simpa using (areCut_cons h).2.2.resolve_right fun hLast => hMore hLast.1
  simpa using count_flatten hWhole

/-- A piece without line feeds that starts on a line does not go on below. -/
theorem AreCut.prefix_of_line {ls : List Line} {before rest piece after : List Char}
    (h : AreCut ((before ++ rest) :: ls)) (hEnd : rest ≠ [])
    (hText : piece ++ after = rest ++ ls.flatten) (hFree : '\n' ∉ piece) :
    piece <+: rest ∧ '\n' ∉ before := by
  obtain ⟨_, _, hKind⟩ := areCut_cons h
  constructor
  · rcases List.append_eq_append_iff.mp hText with ⟨tail, hTail, _⟩ | ⟨more, hMore, hAfter⟩
    · exact ⟨tail, hTail.symm⟩
    · have hNone : '\n' ∉ rest := fun hMem => hFree (hMore ▸ List.mem_append_left _ hMem)
      have hLast : ls = [] := (hKind.resolve_left fun hWhole => hNone (hWhole.mem_of_append hEnd)).1
      rw [hLast, List.flatten_nil] at hAfter
      have hSame : piece = rest := by
        rw [hMore, (List.append_eq_nil_iff.mp hAfter.symm).1, List.append_nil]
      exact hSame ▸ List.prefix_rfl
  · rcases hKind with hWhole | ⟨_, hLine⟩
    · exact hWhole.not_mem_of_append hEnd
    · exact fun hMem => hLine (List.mem_append_left _ hMem)

/-- A piece of a text without line feeds stands on one line, after as many lines as there are line feeds
before the piece. -/
theorem AreCut.exists_line {ls : List Line} (h : AreCut ls) {before piece after : List Char}
    (hText : ls.flatten = before ++ (piece ++ after)) (hNil : piece ≠ []) (hFree : '\n' ∉ piece) :
    ∃ above head tail below, ls = above ++ (head ++ piece ++ tail) :: below ∧
      above.length = before.count '\n' ∧ before = above.flatten ++ head := by
  induction ls generalizing before with
  | nil => simp [hNil] at hText
  | cons l ls ih =>
    -- The piece starts on this line or below it, where an empty rest of the line counts as below.
    have hBelow (rest : List Char) (hBefore : before = l ++ rest)
        (hRest : ls.flatten = rest ++ (piece ++ after)) :
        ∃ above head tail below, l :: ls = above ++ (head ++ piece ++ tail) :: below ∧
          above.length = before.count '\n' ∧ before = above.flatten ++ head := by
      have hMore : ls ≠ [] := by
        rintro rfl
        simp [hNil] at hRest
      obtain ⟨above, head, tail, below, hLines, hLength, hHead⟩ := ih (areCut_cons h).1 hRest
      refine ⟨l :: above, head, tail, below, by rw [hLines, List.cons_append], ?_, ?_⟩
      · rw [List.length_cons, hLength, hBefore, List.count_append, h.count_line hMore, Nat.add_comm]
      · rw [hBefore, hHead, List.flatten_cons, List.append_assoc]
    rw [List.flatten_cons, List.append_eq_append_iff] at hText
    rcases hText with ⟨rest, hBefore, hRest⟩ | ⟨rest, rfl, hRest⟩
    · exact hBelow rest hBefore hRest
    · by_cases hEnd : rest = []
      · subst hEnd
        exact hBelow [] (by simp) (by simpa using hRest.symm)
      · obtain ⟨⟨tail, rfl⟩, hFirst⟩ := h.prefix_of_line hEnd hRest hFree
        exact ⟨[], before, tail, ls, by simp, by simp [List.count_eq_zero_of_not_mem hFirst], by simp⟩

/-- The lines of a text that ends a line are whole, and the lines after it do not depend on it. -/
theorem exists_lines_feed (t : List Char) : ∃ ls : List Line, (∀ l ∈ ls, Whole l) ∧
    ls.flatten = t ++ ['\n'] ∧ ls.length = t.count '\n' + 1 ∧
    ∀ r, ofText (t ++ '\n' :: r) = ls ++ ofText r := by
  have hWhole : ∀ l ∈ ofText (t ++ ['\n']), Whole l := by
    have hFlatten := flatten_ofText (t ++ ['\n'])
    have hCut := areCut_ofText (t ++ ['\n'])
    generalize ofText (t ++ ['\n']) = ls at hFlatten hCut ⊢
    rcases List.eq_nil_or_concat ls with rfl | ⟨init, last, rfl⟩
    · simp
    · rw [List.concat_eq_append] at hFlatten hCut ⊢
      obtain ⟨hNil, hKind⟩ := hCut.last
      have hLast : Whole last := by
        rcases hKind with hWhole | hFree
        · exact hWhole
        · have hEnd := congrArg List.getLast? hFlatten
          rw [List.getLast?_concat, List.flatten_append, List.flatten_singleton,
            List.getLast?_append_of_ne_nil _ hNil] at hEnd
          exact absurd (List.mem_of_getLast? hEnd) hFree
      intro l hl
      rcases List.mem_append.mp hl with hl | hl
      · exact hCut.whole_of_append (by simp) l hl
      · exact List.mem_singleton.mp hl ▸ hLast
  refine ⟨ofText (t ++ ['\n']), hWhole, flatten_ofText _, ?_, ?_⟩
  · rw [← count_flatten hWhole, flatten_ofText, List.count_append]
    simp
  · intro r
    rw [← ofText_flatten_append hWhole, flatten_ofText, List.append_assoc, List.singleton_append]

end DocWiring.Line

namespace DocWiring.SourceUnit

/-- The unit was read from a text or from the bytes of a file. -/
def IsRead (u : SourceUnit) : Prop :=
  (∃ text, u = ofText text) ∨ ∃ bytes, u = ofBytes bytes

theorem IsRead.areCut {u : SourceUnit} (h : u.IsRead) : Line.AreCut u.lines := by
  rcases h with ⟨text, rfl⟩ | ⟨bytes, rfl⟩
  · exact Line.areCut_ofText text
  · exact Line.areCut_ofText _

end DocWiring.SourceUnit
