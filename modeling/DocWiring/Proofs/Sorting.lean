import DocWiring.Sorting

/-! # Sorting is stable

Elements that the order does not tell apart come out in the order in which they went in.  What comes out
is determined by the order and by the elements that it does not tell apart.
-/

namespace DocWiring

variable {α : Type} {le : α → α → Bool} {tied : α → Bool}

theorem filter_placeBy (h : ∀ a b, tied a = true → tied b = true → le a b = true) (a : α)
    (xs : List α) : (placeBy le a xs).filter tied = (a :: xs).filter tied := by
  induction xs with
  | nil => rfl
  | cons b r ih =>
    rw [placeBy]
    split
    next => rfl
    next hAfter =>
      simp only [List.filter_cons, ih]
      cases ha : tied a with
      | false => rfl
      | true =>
        have hb : ¬ tied b = true := fun hb => hAfter (h a b ha hb)
        rw [if_neg hb, if_neg hb]

theorem filter_sortBy (h : ∀ a b, tied a = true → tied b = true → le a b = true) (xs : List α) :
    (sortBy le xs).filter tied = xs.filter tied := by
  induction xs with
  | nil => rfl
  | cons a r ih =>
    change (placeBy le a (sortBy le r)).filter tied = (a :: r).filter tied
    rw [filter_placeBy h, List.filter_cons, List.filter_cons, ih]

theorem mem_iff_of_filter_key_eq {key : α → Nat} {xs ys : List α}
    (h : ∀ n, xs.filter (key · = n) = ys.filter (key · = n)) {a : α} : a ∈ xs ↔ a ∈ ys := by
  have hSame : a ∈ xs.filter (key · = key a) ↔ a ∈ ys.filter (key · = key a) := by rw [h]
  simpa using hSame

/-- Ascending lists are equal if they have the same elements of each key, in the same order. -/
theorem eq_of_filter_key_eq {key : α → Nat} {xs ys : List α}
    (hx : xs.Pairwise fun a b => key a ≤ key b) (hy : ys.Pairwise fun a b => key a ≤ key b)
    (h : ∀ n, xs.filter (key · = n) = ys.filter (key · = n)) : xs = ys := by
  induction xs generalizing ys with
  | nil =>
    symm
    rw [List.eq_nil_iff_forall_not_mem]
    exact fun a ha => List.not_mem_nil ((mem_iff_of_filter_key_eq h).mpr ha)
  | cons x xs ih =>
    cases ys with
    | nil => exact absurd ((mem_iff_of_filter_key_eq h).mp List.mem_cons_self) List.not_mem_nil
    | cons y ys =>
      obtain ⟨hxMin, hxs⟩ := List.pairwise_cons.mp hx
      obtain ⟨hyMin, hys⟩ := List.pairwise_cons.mp hy
      have hKey : key x = key y := by
        apply Nat.le_antisymm
        · rcases List.mem_cons.mp ((mem_iff_of_filter_key_eq h).mpr List.mem_cons_self) with rfl | hy
          · exact Nat.le_refl _
          · exact hxMin y hy
        · rcases List.mem_cons.mp ((mem_iff_of_filter_key_eq h).mp List.mem_cons_self) with rfl | hx
          · exact Nat.le_refl _
          · exact hyMin x hx
      -- Both heads have the least key, so they are the heads of the same filtered list.
      have hHeads := h (key x)
      rw [List.filter_cons_of_pos (by simp), List.filter_cons_of_pos (by simp [hKey]),
        List.cons.injEq] at hHeads
      obtain ⟨rfl, hTails⟩ := hHeads
      rw [ih hxs hys]
      intro n
      by_cases hn : key x = n
      · exact hn ▸ hTails
      · have hOther := h n
        rwa [List.filter_cons_of_neg (by simpa using hn),
          List.filter_cons_of_neg (by simpa using hn)] at hOther

end DocWiring
