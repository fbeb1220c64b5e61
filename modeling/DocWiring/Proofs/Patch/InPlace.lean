import DocWiring.Proofs.Patch
import DocWiring.Proofs.Sorting
import Mathlib.Algebra.Ring.Int.Defs

/-! # Patches applied in place

Patches that lie one below the other can be applied to the file in the order of their first lines, each
one moved by as many lines as the earlier ones have added.  The file that comes out is put together from
the replacements and from the lines between the patches.
-/

namespace DocWiring.Patch

/-- The patches `qs` are those of `ps` by their first lines; patches with the same first line come as in
`ps`. -/
structure Sorts (ps qs : List Patch) : Prop where
  perm : qs.Perm ps
  ascending : qs.Pairwise fun p q => p.start ≤ q.start
  stable : ∀ n, qs.filter (fun p => p.start = n) = ps.filter fun p => p.start = n

theorem sorts_inOrder (ps : List Patch) : Sorts ps (inOrder ps) where
  perm := sortBy_perm _ ps
  ascending := by
    have hSorted : (inOrder ps).Pairwise fun p q => decide (p.start ≤ q.start) = true := by
      apply pairwise_sortBy
      · intro p q r hpq hqr
        simp only [decide_eq_true_eq] at hpq hqr ⊢
        omega
      · intro p q
        simp only [decide_eq_true_eq]
        omega
    exact hSorted.imp of_decide_eq_true
  stable n := by
    apply filter_sortBy
    intro p q hp hq
    simp only [decide_eq_true_eq] at hp hq ⊢
    omega

def fourLines : SourceUnit :=
  .ofText "1\n2\n3\n4".toList

/-- Patches in no order: one adds two lines before the third line, one takes out the first two, and one
stands for the last. -/
def threePatches : List Patch :=
  [⟨3, 1, [['d']]⟩, ⟨2, 0, [['b', '\n'], ['c', '\n']]⟩, ⟨0, 2, []⟩]

end DocWiring.Patch
