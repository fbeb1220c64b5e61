import DocWiring.Proofs.Patch.InPlace
import Mathlib.Data.List.Pairwise

/-! # Patches in another order

The order in which patches are handed in shows only where two of them start at the same line.  Patches
that start at different lines give the same file, or the same error, in every order.
-/

namespace DocWiring.Patch

variable {ps qs : List Patch}

theorem inOrder_eq_iff : inOrder ps = inOrder qs ↔
    ∀ n, ps.filter (fun p => p.start = n) = qs.filter fun p => p.start = n := by
  have hps := sorts_inOrder ps
  have hqs := sorts_inOrder qs
  constructor
  · intro h n
    rw [← hps.stable, ← hqs.stable, h]
  · intro h
    apply eq_of_filter_key_eq hps.ascending hqs.ascending
    intro n
    rw [hps.stable, hqs.stable, h]

/-- Patches with the same first lines come in the same order in every permutation when there is no more
than one of them. -/
theorem filter_start_eq (hPerm : ps.Perm qs) (hStarts : ps.Pairwise fun p q => p.start ≠ q.start)
    (n : Nat) : ps.filter (fun p => p.start = n) = qs.filter fun p => p.start = n := by
  have hAll (l : List Patch) : l.Pairwise fun _ _ => True := List.pairwise_of_forall fun _ _ => trivial
  refine List.Perm.eq_of_pairwise (fun p q hp hq _ _ => ?_) (hAll _) (hAll _) (hPerm.filter _)
  simp only [List.mem_filter, decide_eq_true_eq] at hp hq
  have : Std.Symm fun p q : Patch => p.start ≠ q.start := ⟨fun _ _ => Ne.symm⟩
  by_contra hNe
  exact hStarts.forall hp.1 (hPerm.mem_iff.mpr hq.1) hNe (hp.2.trans hq.2.symm)

theorem applyAll_congr (h : inOrder ps = inOrder qs) (u : SourceUnit) :
    applyAll u ps = applyAll u qs := by
  rw [applyAll_eq_splice, applyAll_eq_splice, h]

/-- Patches that start at different lines can be handed in in any order. -/
theorem applyAll_perm (u : SourceUnit) (hPerm : ps.Perm qs)
    (hStarts : ps.Pairwise fun p q => p.start ≠ q.start) : applyAll u ps = applyAll u qs :=
  applyAll_congr (inOrder_eq_iff.mpr (filter_start_eq hPerm hStarts)) u

/-- The lines that an insertion touches are taken out above it and replaced below it; the patch that is
added overlaps two of the others. -/
theorem applyAll_perm_threePatches :
    (threePatches.Perm threePatches.reverse ∧ threePatches.Pairwise (fun p q => p.start ≠ q.start) ∧
      applyAll fourLines threePatches.reverse = .ok (.ofText "b\nc\n3\nd".toList)) ∧
    (⟨1, 2, []⟩ :: threePatches).Perm (threePatches ++ [⟨1, 2, []⟩]) ∧
      (⟨1, 2, []⟩ :: threePatches).Pairwise (fun p q => p.start ≠ q.start) ∧
      applyAll fourLines (threePatches ++ [⟨1, 2, []⟩]) =
        .error (.structural (.misplacedPatch 1 3 4)) := by
  have hPerm : threePatches.Perm threePatches.reverse := (List.reverse_perm _).symm
  have hStarts : threePatches.Pairwise fun p q => p.start ≠ q.start := by decide
  have hMore : (⟨1, 2, []⟩ :: threePatches).Perm (threePatches ++ [⟨1, 2, []⟩]) :=
    (List.perm_append_singleton _ _).symm
  have hMoreStarts : (⟨1, 2, []⟩ :: threePatches).Pairwise fun p q => p.start ≠ q.start := by decide
  refine ⟨⟨hPerm, hStarts, ?_⟩, hMore, hMoreStarts, ?_⟩
  · rw [← applyAll_perm fourLines hPerm hStarts]
    decide +kernel
  · rw [← applyAll_perm fourLines hMore hMoreStarts]
    decide +kernel

-- Of two insertions at one line, the one that is handed in first comes out first.
example : applyAll fourLines [⟨1, 0, [['a']]⟩, ⟨1, 0, [['b']]⟩] ≠
    applyAll fourLines [⟨1, 0, [['b']]⟩, ⟨1, 0, [['a']]⟩] := by
  decide +kernel

end DocWiring.Patch
