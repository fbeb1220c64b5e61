/-! # Sorting

Insertion sort.  Elements that the order does not tell apart keep their places relative to each
other.
-/

namespace DocWiring

variable {α : Type}

/-- Puts an element in front of the first one that it may stand before. -/
def placeBy (le : α → α → Bool) (a : α) : List α → List α
  | [] => [a]
  | b :: r => if le a b then a :: b :: r else b :: placeBy le a r

/-- The elements in order. -/
def sortBy (le : α → α → Bool) (xs : List α) : List α :=
  xs.foldr (placeBy le) []

theorem placeBy_perm (le : α → α → Bool) (a : α) (xs : List α) :
    (placeBy le a xs).Perm (a :: xs) := by
  induction xs with
  | nil => exact .refl _
  | cons b r ih =>
    unfold placeBy
    split
    · exact .refl _
    · exact (ih.cons b).trans (.swap a b r)

theorem sortBy_perm (le : α → α → Bool) (xs : List α) : (sortBy le xs).Perm xs := by
  induction xs with
  | nil => exact .refl _
  | cons a r ih => exact (placeBy_perm le a (sortBy le r)).trans (ih.cons a)

theorem pairwise_placeBy {le : α → α → Bool}
    (trans : ∀ a b c, le a b = true → le b c = true → le a c = true)
    (total : ∀ a b, le a b = true ∨ le b a = true) {a : α} {xs : List α}
    (h : xs.Pairwise fun x y => le x y = true) :
    (placeBy le a xs).Pairwise fun x y => le x y = true := by
  induction xs with
  | nil => simp [placeBy]
  | cons b r ih =>
    rw [List.pairwise_cons] at h
    unfold placeBy
    split
    next before =>
      rw [List.pairwise_cons]
      refine ⟨?_, List.pairwise_cons.mpr h⟩
      intro x hx
      rcases List.mem_cons.mp hx with rfl | hx
      · exact before
      · exact trans _ _ _ before (h.1 x hx)
    next notBefore =>
      rw [List.pairwise_cons]
      refine ⟨?_, ih h.2⟩
      intro x hx
      rcases List.mem_cons.mp ((placeBy_perm le a r).mem_iff.mp hx) with rfl | hx
      · exact (total x b).resolve_left notBefore
      · exact h.1 x hx

theorem pairwise_sortBy {le : α → α → Bool}
    (trans : ∀ a b c, le a b = true → le b c = true → le a c = true)
    (total : ∀ a b, le a b = true ∨ le b a = true) (xs : List α) :
    (sortBy le xs).Pairwise fun x y => le x y = true := by
  induction xs with
  | nil => exact .nil
  | cons a r ih => exact pairwise_placeBy trans total ih

end DocWiring
