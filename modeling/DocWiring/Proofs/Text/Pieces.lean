import DocWiring.Text.Search
import Mathlib.Data.List.Infix

/-! # The pieces between separators

A text is its pieces with a separator between each two of them, and no piece holds a separator.
-/

namespace DocWiring.Text

variable {sep : Char} {p t : List Char}

theorem pieces_eq_splitOn (sep : Char) (t : List Char) : pieces sep t = t.splitOn sep := by
  induction t with
  | nil => rw [pieces, List.splitOn_nil]
  | cons c r ih =>
    rw [pieces, List.splitOn_cons_eq_if_modifyHead, ih]
    by_cases hc : c = sep
    · simp [hc]
    · rw [if_neg hc, if_neg (by simpa using hc)]
      obtain ⟨q, qs, hSplit⟩ := List.exists_cons_of_ne_nil (List.splitOn_ne_nil sep r)
      rw [hSplit, List.modifyHead_cons]

theorem pieces_ne_nil (sep : Char) (t : List Char) : pieces sep t ≠ [] := by
  rw [pieces_eq_splitOn]
  exact List.splitOn_ne_nil sep t

theorem intercalate_pieces (sep : Char) (t : List Char) : [sep].intercalate (pieces sep t) = t := by
  rw [pieces_eq_splitOn]
  exact List.intercalate_splitOn sep

theorem pieces_intercalate {ps : List (List Char)} (hNil : ps ≠ []) (h : ∀ p ∈ ps, sep ∉ p) :
    pieces sep ([sep].intercalate ps) = ps := by
  rw [pieces_eq_splitOn]
  exact List.splitOn_intercalate sep h hNil

theorem pieces_append_cons (sep : Char) (s t : List Char) :
    pieces sep (s ++ sep :: t) = pieces sep s ++ pieces sep t := by
  rw [pieces_eq_splitOn, pieces_eq_splitOn, pieces_eq_splitOn]
  exact List.splitOn_append_cons_self ..

theorem pieces_of_not_mem (h : sep ∉ t) : pieces sep t = [t] := by
  rw [pieces_eq_splitOn]
  exact List.splitOn_eq_singleton h

theorem intercalate_append {ps qs : List (List Char)} (hps : ps ≠ []) (hqs : qs ≠ []) :
    [sep].intercalate (ps ++ qs) = [sep].intercalate ps ++ sep :: [sep].intercalate qs := by
  induction ps with
  | nil => exact absurd rfl hps
  | cons p ps ih =>
    rw [List.cons_append, List.intercalate_cons_of_ne_nil (by simp [hqs])]
    by_cases hMore : ps = []
    · simp [hMore]
    · rw [ih hMore, List.intercalate_cons_of_ne_nil hMore]
      simp

theorem dropLast_pieces_append_cons (sep : Char) (s t : List Char) :
    (pieces sep (s ++ sep :: t)).dropLast = pieces sep s ++ (pieces sep t).dropLast := by
  rw [pieces_append_cons, List.dropLast_append_of_ne_nil (pieces_ne_nil sep t)]

/-- A text without separators is a piece before the last one exactly if it stands between the start of the
text or a separator and another separator. -/
theorem mem_dropLast_pieces_iff (hp : sep ∉ p) : p ∈ (pieces sep t).dropLast ↔
    (∃ after, t = p ++ sep :: after) ∨ ∃ before after, t = before ++ sep :: (p ++ sep :: after) := by
  constructor
  · intro h
    obtain ⟨front, back, hInit⟩ := List.append_of_mem h
    obtain ⟨last, hLast⟩ : ∃ last, pieces sep t = (front ++ p :: back) ++ [last] :=
      ⟨_, hInit ▸ (List.dropLast_concat_getLast (pieces_ne_nil sep t)).symm⟩
    have hBack : back ++ [last] ≠ [] := by simp
    have hText : t = [sep].intercalate (front ++ p :: (back ++ [last])) := by
      rw [← intercalate_pieces sep t, hLast, List.append_assoc, List.cons_append]
    rw [hText]
    cases front with
    | nil =>
      refine .inl ⟨[sep].intercalate (back ++ [last]), ?_⟩
      rw [List.nil_append, List.intercalate_cons_of_ne_nil hBack]
      simp
    | cons first front =>
      refine .inr ⟨[sep].intercalate (first :: front), [sep].intercalate (back ++ [last]), ?_⟩
      rw [intercalate_append (by simp) (by simp), List.intercalate_cons_of_ne_nil hBack]
      simp
  · rintro (⟨after, rfl⟩ | ⟨before, after, rfl⟩)
    · rw [dropLast_pieces_append_cons, pieces_of_not_mem hp]
      exact List.mem_append_left _ List.mem_cons_self
    · rw [dropLast_pieces_append_cons, dropLast_pieces_append_cons, pieces_of_not_mem hp]
      exact List.mem_append_right _ (List.mem_append_left _ List.mem_cons_self)

end DocWiring.Text
