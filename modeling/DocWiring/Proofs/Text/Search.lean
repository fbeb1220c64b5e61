import DocWiring.Text.Blank
import DocWiring.Text.Search
import Mathlib.Data.List.Infix

/-! # Marks in a text

A text holds a mark exactly if the mark is an infix of it.  The part before the first place does
not hold the mark, and after the last place of a comment's end nothing is left that could end it.
-/

namespace DocWiring.Text

theorem holds_iff {mark t : List Char} : holds mark t = true ↔ mark <:+: t := by
  induction t with
  | nil => cases mark <;> simp [holds, cutFirst?]
  | cons c r ih =>
    rw [List.infix_cons_iff, ← ih, ← List.isPrefixOf_iff_prefix]
    by_cases hHere : mark.isPrefixOf (c :: r) = true <;> simp [holds, cutFirst?, hHere]

theorem holds_eq_false_iff {mark t : List Char} : holds mark t = false ↔ ¬ mark <:+: t := by
  rw [← holds_iff, Bool.not_eq_true]

/-- What lacks a character and starts a text ends before the character does. -/
theorem prefix_of_append_cons {t before after rest : List Char} {c : Char} (hc : c ∉ t)
    (h : before ++ c :: after = t ++ rest) : t <+: before := by
  induction before generalizing t with
  | nil =>
    cases t with
    | nil => exact List.nil_prefix
    | cons d s => exact absurd (by simp [(List.cons.inj h).1]) hc
  | cons b bs ih =>
    cases t with
    | nil => exact List.nil_prefix
    | cons d s =>
      obtain ⟨rfl, hRest⟩ := List.cons.inj h
      exact List.cons_prefix_cons.mpr ⟨rfl, ih (List.not_mem_of_not_mem_cons hc) hRest⟩

/-- A character that the end of a text lacks stands in the part before that end. -/
theorem exists_of_append_eq {x z before after : List Char} {c : Char} (hc : c ∉ z)
    (h : x ++ z = before ++ c :: after) : ∃ y, x = before ++ c :: y ∧ after = y ++ z := by
  rcases List.append_eq_append_iff.mp h with ⟨lost, _, hz⟩ | ⟨kept, hx, hAfter⟩
  · exact absurd (hz ▸ by simp) hc
  · cases kept with
    | nil =>
      rw [List.nil_append] at hAfter
      exact absurd (hAfter ▸ List.mem_cons_self) hc
    | cons d y =>
      obtain ⟨rfl, rfl⟩ := List.cons.inj hAfter
      exact ⟨y, hx, rfl⟩

/-- A mark does not go over a character that it lacks. -/
theorem infix_append_cons {mark s t : List Char} {c : Char} (hc : c ∉ mark)
    (h : mark <:+: s ++ c :: t) : mark <:+: s ∨ mark <:+: t := by
  induction s with
  | nil =>
    rcases List.infix_cons_iff.mp h with hPrefix | hLater
    · cases mark with
      | nil => exact .inl List.nil_infix
      | cons m ms => exact absurd (by simp [(List.cons_prefix_cons.mp hPrefix).1]) hc
    · exact .inr hLater
  | cons d s ih =>
    rcases List.infix_cons_iff.mp h with ⟨rest, hPrefix⟩ | hLater
    · have hBoth : d :: s ++ c :: t = mark ++ rest := by simpa using hPrefix.symm
      exact .inl (prefix_of_append_cons hc hBoth).isInfix
    · exact (ih hLater).imp_left List.infix_cons

theorem not_infix_of_not_mem {c : Char} {mark t : List Char} (hMark : c ∈ mark) (ht : c ∉ t) :
    ¬ mark <:+: t :=
  fun h => ht (h.subset hMark)

/-- The place that is found first is the first one. -/
theorem not_infix_of_cutFirst? {mark t before after : List Char} (hMark : mark ≠ [])
    (h : cutFirst? mark t = some (before, after)) : ¬ mark <:+: before := by
  induction t generalizing before after with
  | nil =>
    have hEmpty : mark.isEmpty = false := by simpa using hMark
    simp [cutFirst?, hEmpty] at h
  | cons c r ih =>
    unfold cutFirst? at h
    split at h
    next =>
      obtain ⟨rfl, rfl⟩ := Prod.mk.inj (Option.some.inj h)
      simpa using hMark
    next hHere =>
      obtain ⟨⟨b, a⟩, hFound, hSame⟩ := Option.map_eq_some_iff.mp h
      obtain ⟨rfl, rfl⟩ := Prod.mk.inj hSame
      intro hInfix
      rcases List.infix_cons_iff.mp hInfix with hPrefix | hLater
      · apply hHere
        rw [List.isPrefixOf_iff_prefix, eq_of_cutFirst? hFound]
        exact hPrefix.trans ⟨mark ++ a, by simp⟩
      · exact ih hFound hLater

theorem cutLast?_eq_none {mark t : List Char} (hMark : mark ≠ []) (h : ¬ mark <:+: t) :
    cutLast? mark t = none := by
  induction t with
  | nil =>
    have hEmpty : mark.isEmpty = false := by simpa using hMark
    simp [cutLast?, hEmpty]
  | cons c r ih =>
    have hHere : mark.isPrefixOf (c :: r) = false := by
      rw [← Bool.not_eq_true, List.isPrefixOf_iff_prefix]
      exact fun hPrefix => h hPrefix.isInfix
    have hLater : ¬ mark <:+: r := fun hInfix => h (List.infix_cons hInfix)
    simp [cutLast?, ih hLater, hHere]

/-- Nothing of the mark is left after its last place, if the mark cannot overlap itself there. -/
theorem cutLast?_append {mark tail : List Char} {m : Char} {ms : List Char}
    (hMark : mark = m :: ms) (hTail : ¬ mark <:+: ms ++ tail) (head : List Char) :
    cutLast? mark (head ++ mark ++ tail) = some (head, tail) := by
  induction head with
  | nil =>
    have hNone := cutLast?_eq_none (by simp [hMark]) hTail
    have hHere : mark.isPrefixOf (m :: (ms ++ tail)) = true := by
      rw [List.isPrefixOf_iff_prefix]
      exact ⟨tail, by simp [hMark]⟩
    rw [List.nil_append, show mark ++ tail = m :: (ms ++ tail) by simp [hMark], cutLast?, hNone,
      hHere]
    simp [hMark]
  | cons c r ih =>
    rw [List.cons_append, List.cons_append, cutLast?, ih]

/-! ## Trimming -/

theorem trimEnd_append_blank (t : List Char) :
    ∃ s, t = trimEnd t ++ s ∧ ∀ c ∈ s, isBlank c = true := by
  induction t with
  | nil => exact ⟨[], rfl, by simp⟩
  | cons c r ih =>
    obtain ⟨s, hs, hBlank⟩ := ih
    unfold trimEnd
    split
    next hNil =>
      rw [hNil, List.nil_append] at hs
      split
      next hc => exact ⟨c :: r, rfl, by simpa [hc, hs] using hBlank⟩
      next => exact ⟨r, rfl, hs ▸ hBlank⟩
    next d e hRest => exact ⟨s, by rw [List.cons_append, ← hRest, ← hs], hBlank⟩

theorem trimEnd_initial (t : List Char) : trimEnd t <+: t := by
  obtain ⟨s, hs, _⟩ := trimEnd_append_blank t
  exact ⟨s, hs.symm⟩

theorem getLast?_trimEnd {t : List Char} {c : Char} (h : (trimEnd t).getLast? = some c) :
    isBlank c = false := by
  induction t with
  | nil => simp [trimEnd] at h
  | cons d r ih =>
    unfold trimEnd at h
    split at h
    next hNil =>
      split at h
      next => simp at h
      next hd =>
        obtain rfl : d = c := by simpa using h
        simpa using hd
    next e s hRest =>
      rw [List.getLast?_cons_of_ne_nil (by simp), ← hRest] at h
      exact ih h

theorem trimEnd_cons_of_ne_nil {c : Char} {r : List Char} (h : trimEnd r ≠ []) :
    trimEnd (c :: r) = c :: trimEnd r := by
  rw [trimEnd]
  split
  next hNil => exact absurd hNil h
  next hRest => rw [hRest]

theorem trimEnd_append {t : List Char} {c : Char} (hc : isBlank c = false) (r : List Char) :
    trimEnd (t ++ c :: r) = t ++ c :: trimEnd r := by
  have hLast : trimEnd (c :: r) = c :: trimEnd r := by
    by_cases hr : trimEnd r = []
    · simp [trimEnd, hr, hc]
    · exact trimEnd_cons_of_ne_nil hr
  induction t with
  | nil => exact hLast
  | cons d s ih =>
    rw [List.cons_append, trimEnd_cons_of_ne_nil (by simp [ih]), ih, List.cons_append]

end DocWiring.Text
