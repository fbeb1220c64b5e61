import DocWiring.Proofs.Text.Search
import Mathlib.Algebra.Ring.Nat

/-! # The places of a mark

The places of a mark are counted.  No place reaches over a character that the mark lacks, so the places
of a text that is cut at such characters are those of its parts.
-/

namespace DocWiring.Text

/-- The number of places where the mark stands, an empty end not counted. -/
def occurrences (mark : List Char) : List Char → Nat
  | [] => 0
  | c :: r => (if mark.isPrefixOf (c :: r) then 1 else 0) + occurrences mark r

variable {mark : List Char} {c : Char}

theorem occurrences_eq_zero_iff (hMark : mark ≠ []) {t : List Char} :
    occurrences mark t = 0 ↔ ¬ mark <:+: t := by
  induction t with
  | nil => simp [occurrences, hMark]
  | cons d r ih =>
    rw [List.infix_cons_iff, not_or, ← ih, ← List.isPrefixOf_iff_prefix]
    by_cases hHere : mark.isPrefixOf (d :: r) = true <;> simp [occurrences, hHere]

theorem isPrefixOf_append_cons (hc : c ∉ mark) (s t : List Char) :
    mark.isPrefixOf (s ++ c :: t) = mark.isPrefixOf s := by
  rw [Bool.eq_iff_iff, List.isPrefixOf_iff_prefix, List.isPrefixOf_iff_prefix]
  constructor
  · rintro ⟨rest, hRest⟩
    exact prefix_of_append_cons hc hRest.symm
  · exact fun hPrefix => hPrefix.trans (List.prefix_append s _)

theorem occurrences_append_cons (hMark : mark ≠ []) (hc : c ∉ mark) (s t : List Char) :
    occurrences mark (s ++ c :: t) = occurrences mark s + occurrences mark t := by
  induction s with
  | nil =>
    have hHere := isPrefixOf_append_cons hc [] t
    have hNil : mark.isPrefixOf [] = false := by simpa [← Bool.not_eq_true] using hMark
    rw [List.nil_append, hNil] at hHere
    simp [occurrences, hHere]
  | cons d s ih =>
    have hHere := isPrefixOf_append_cons hc (d :: s) t
    rw [List.cons_append] at hHere
    rw [List.cons_append, occurrences, occurrences, hHere, ih, Nat.add_assoc]

/-- The character at the end of every text keeps their places apart. -/
theorem occurrences_flatten (hMark : mark ≠ []) (hc : c ∉ mark) {ts : List (List Char)}
    (h : ∀ t ∈ ts, ∃ body, t = body ++ [c]) :
    occurrences mark ts.flatten = (ts.map (occurrences mark)).sum := by
  induction ts with
  | nil => rfl
  | cons t ts ih =>
    obtain ⟨⟨body, rfl⟩, hRest⟩ := List.forall_mem_cons.mp h
    rw [List.flatten_cons, List.append_assoc, List.singleton_append,
      occurrences_append_cons hMark hc, ih hRest, List.map_cons, List.sum_cons,
      occurrences_append_cons hMark hc]
    rfl

end DocWiring.Text
