import DocWiring.Patch
import Mathlib.Data.List.Basic

/-! # Applying patches

Patches in order leave the lines between them as they are.  A single patch puts its lines in the place
of the lines that it stands for, and several can be applied one after another, the last one first.
-/

namespace DocWiring

theorem sortBy_eq_self {α : Type} {le : α → α → Bool} {xs : List α}
    (h : xs.Pairwise fun x y => le x y = true) : sortBy le xs = xs := by
  induction xs with
  | nil => rfl
  | cons a r ih =>
    obtain ⟨ha, hr⟩ := List.pairwise_cons.mp h
    rw [sortBy, List.foldr_cons]
    change placeBy le a (sortBy le r) = a :: r
    rw [ih hr]
    cases r with
    | nil => rfl
    | cons b r => rw [placeBy, if_pos (ha b List.mem_cons_self)]

namespace Patch

theorem start_le_stop (p : Patch) : p.start ≤ p.stop :=
  Nat.le_add_right _ _

theorem misplaced?_cons_eq_none_iff {p : Patch} {ps : List Patch} {n covered : Nat} :
    misplaced? n covered (p :: ps) = none ↔
      (covered ≤ p.start ∧ p.stop ≤ n) ∧ misplaced? n p.stop ps = none := by
  rw [misplaced?, ← Nat.not_lt, ← Nat.not_lt, ← not_or]
  split
  next hOut => simp [hOut]
  next hFits => simp [hFits]

/-- The lines after patches in order, where `lines` starts with line `pos` of the file. -/
def splice : Nat → List Patch → List Line → List Line
  | _, [], lines => lines
  | pos, p :: ps, lines =>
    lines.take (p.start - pos) ++ p.replacement ++
      splice p.stop ps (lines.drop (p.stop - pos))

theorem edit_append {offset : Int} {p : Patch} {pos : Nat} {done : List Line}
    (hDone : (done.length : Int) = pos + offset) (hStart : pos ≤ p.start) (rest : List Line) :
    edit offset p (done ++ rest) =
      done ++ rest.take (p.start - pos) ++ p.replacement ++ rest.drop (p.stop - pos) := by
  have hPlace : (p.start : Int) + offset = (done.length + (p.start - pos) : Nat) := by omega
  have hEnd : p.start - pos + p.count = p.stop - pos := by rw [stop]; omega
  unfold edit
  dsimp only
  rw [hPlace, Int.toNat_natCast, Nat.add_assoc, hEnd, List.take_length_add_append,
    List.drop_length_add_append]

section

variable {n pos : Nat} {offset : Int} {p : Patch} {done rest : List Line}

/-- What lies above the end of a patch has grown by as many lines as the patch adds. -/
theorem length_edited (hDone : (done.length : Int) = pos + offset) (hStart : pos ≤ p.start)
    (hStop : p.stop ≤ pos + rest.length) :
    ((done ++ rest.take (p.start - pos) ++ p.replacement).length : Int) =
      p.stop + (offset + p.delta) := by
  simp only [List.length_append, List.length_take, delta, stop]
  rw [stop] at hStop
  omega

theorem length_rest (hLength : n = pos + rest.length) (hStart : pos ≤ p.start) (hStop : p.stop ≤ n) :
    n = p.stop + (rest.drop (p.stop - pos)).length := by
  rw [List.length_drop]
  have := p.start_le_stop
  omega

end

theorem editAll_append {n : Nat} {ps : List Patch} {offset : Int} {pos : Nat} {done rest : List Line}
    (hDone : (done.length : Int) = pos + offset) (hLength : n = pos + rest.length)
    (h : misplaced? n pos ps = none) :
    editAll offset ps (done ++ rest) = done ++ splice pos ps rest := by
  -- What lies above line `pos` of the file is done and has grown by `offset`, and all patches that are
  -- left lie in the rest.
  induction ps generalizing offset pos done rest with
  | nil => rfl
  | cons p ps ih =>
    obtain ⟨⟨hStart, hStop⟩, hRest⟩ := misplaced?_cons_eq_none_iff.mp h
    rw [editAll, edit_append hDone hStart, ih (length_edited hDone hStart (hLength ▸ hStop))
      (length_rest hLength hStart hStop) hRest, splice]
    simp only [List.append_assoc]

/-- The loop over the patches puts the lines together that lie between them. -/
theorem editAll_eq_splice {ps : List Patch} {lines : List Line}
    (h : misplaced? lines.length 0 ps = none) : editAll 0 ps lines = splice 0 ps lines := by
  have hNone : (([] : List Line).length : Int) = (0 : Nat) + 0 := rfl
  exact editAll_append hNone (Nat.zero_add _).symm h

theorem applyAll_eq_splice (u : SourceUnit) (ps : List Patch) :
    applyAll u ps = match misplaced? u.lines.length 0 (inOrder ps) with
      | some p => .error (.structural (.misplacedPatch p.start p.stop u.lines.length))
      | none => .ok { u with lines := splice 0 (inOrder ps) u.lines } := by
  unfold applyAll
  split
  next hEmpty =>
    obtain rfl := List.isEmpty_iff.mp hEmpty
    rfl
  next =>
    dsimp only
    cases hFirst : misplaced? u.lines.length 0 (inOrder ps) with
    | some p => rfl
    | none => simp only [editAll_eq_splice hFirst]

theorem applyAll_eq_ok_iff {u v : SourceUnit} {ps : List Patch} :
    applyAll u ps = .ok v ↔ misplaced? u.lines.length 0 (inOrder ps) = none ∧
      v = { u with lines := splice 0 (inOrder ps) u.lines } := by
  rw [applyAll_eq_splice]
  split
  next hSome => simp [hSome]
  next hNone => simp [hNone, eq_comm]

theorem inOrder_of_pairwise {ps : List Patch} (h : ps.Pairwise fun p q => p.start ≤ q.start) :
    inOrder ps = ps :=
  sortBy_eq_self (by simpa using h)

theorem applyAll_singleton {u : SourceUnit} {above old below : List Line} {p : Patch}
    (hLines : u.lines = above ++ old ++ below) (hStart : above.length = p.start)
    (hCount : old.length = p.count) :
    applyAll u [p] = .ok { u with lines := above ++ p.replacement ++ below } := by
  have hStop : p.stop = (above ++ old).length := by simp [stop, hStart, hCount]
  have hInside : ¬ u.lines.length < p.stop := by simp [hLines, hStop]
  have hTake : u.lines.take p.start = above := by
    rw [hLines, List.append_assoc, ← hStart, List.take_left]
  have hDrop : u.lines.drop p.stop = below := by rw [hLines, hStop, List.drop_left]
  rw [applyAll_eq_ok_iff, inOrder_of_pairwise (List.pairwise_singleton _ _)]
  simp [misplaced?, splice, hInside, hTake, hDrop]

theorem applyAll_eq_ok {u v : SourceUnit} {ps : List Patch}
    (hOrder : ps.Pairwise fun p q => p.start ≤ q.start) (h : applyAll u ps = .ok v) :
    misplaced? u.lines.length 0 ps = none ∧ v = { u with lines := splice 0 ps u.lines } := by
  rw [applyAll_eq_ok_iff, inOrder_of_pairwise hOrder] at h
  exact h

theorem encoding_of_applyAll {u v : SourceUnit} {ps : List Patch} (h : applyAll u ps = .ok v) :
    v.encoding = u.encoding := by
  rw [(applyAll_eq_ok_iff.mp h).2]

theorem mem_inOrder {ps : List Patch} {p : Patch} : p ∈ inOrder ps ↔ p ∈ ps :=
  (sortBy_perm _ _).mem_iff

theorem splice_eq_take_append {ps : List Patch} {n : Nat} (h : ∀ p ∈ ps.head?, n ≤ p.start)
    (lines : List Line) : splice 0 ps lines = lines.take n ++ splice n ps (lines.drop n) := by
  cases ps with
  | nil => exact (List.take_append_drop n lines).symm
  | cons p ps =>
    have hn : n ≤ p.start := h p rfl
    have hTake : lines.take p.start = lines.take n ++ (lines.drop n).take (p.start - n) := by
      rw [← List.take_add, Nat.add_sub_cancel' hn]
    have hDrop : lines.drop p.stop = (lines.drop n).drop (p.stop - n) := by
      rw [List.drop_drop, Nat.add_sub_cancel' (Nat.le_trans hn p.start_le_stop)]
    rw [splice, splice, Nat.sub_zero, Nat.sub_zero, hTake, hDrop]
    simp only [List.append_assoc]

/-- The first patch can be applied to the lines that the other patches give. -/
theorem splice_cons {p : Patch} {ps : List Patch} {lines : List Line} {covered : Nat}
    (h : misplaced? lines.length covered (p :: ps) = none) :
    splice 0 (p :: ps) lines = (splice 0 ps lines).take p.start ++ p.replacement ++
      (splice 0 ps lines).drop p.stop := by
  obtain ⟨⟨_, hInside⟩, hRest⟩ := misplaced?_cons_eq_none_iff.mp h
  have hFirst : ∀ q ∈ ps.head?, p.stop ≤ q.start := by
    intro q hq
    obtain ⟨r, rfl⟩ := List.head?_eq_some_iff.mp hq
    exact (misplaced?_cons_eq_none_iff.mp hRest).1.1
  have hTake : (lines.take p.stop).take p.start = lines.take p.start := by
    rw [List.take_take, Nat.min_eq_left p.start_le_stop]
  have hLength : (lines.take p.stop).length = p.stop := by
    rw [List.length_take]
    exact Nat.min_eq_left hInside
  have hStart : p.start ≤ (lines.take p.stop).length := by
    rw [hLength]
    exact p.start_le_stop
  rw [splice_eq_take_append hFirst, List.take_append_of_le_length hStart, hTake,
    List.drop_append_of_le_length (by omega), List.drop_of_length_le (by omega), List.nil_append,
    splice, Nat.sub_zero, Nat.sub_zero]

/-- The patches lie in a file of `n` lines one below the other. -/
structure Apart (n : Nat) (ps : List Patch) : Prop where
  inside : ∀ p ∈ ps, p.stop ≤ n
  below : ps.Pairwise fun p q => p.stop ≤ q.start

namespace Apart

variable {u : SourceUnit} {p : Patch} {ps : List Patch} {n : Nat}

theorem misplaced?_eq_none (h : Apart n ps) {covered : Nat} (hAbove : ∀ p ∈ ps, covered ≤ p.start) :
    misplaced? n covered ps = none := by
  induction ps generalizing covered with
  | nil => rfl
  | cons p ps ih =>
    obtain ⟨hInside, hRest⟩ := List.forall_mem_cons.mp h.inside
    obtain ⟨hBelow, hPairs⟩ := List.pairwise_cons.mp h.below
    have hCovered : covered ≤ p.start := hAbove p List.mem_cons_self
    exact misplaced?_cons_eq_none_iff.mpr ⟨⟨hCovered, hInside⟩, ih ⟨hRest, hPairs⟩ hBelow⟩

theorem applyAll_eq (h : Apart u.lines.length ps) :
    applyAll u ps = .ok { u with lines := splice 0 ps u.lines } := by
  have hOrder : inOrder ps = ps :=
    inOrder_of_pairwise (h.below.imp fun {p _} hBelow => Nat.le_trans p.start_le_stop hBelow)
  have hPlaced : misplaced? u.lines.length 0 ps = none :=
    h.misplaced?_eq_none fun p _ => Nat.zero_le p.start
  rw [applyAll_eq_ok_iff, hOrder]
  exact ⟨hPlaced, rfl⟩

theorem tail (h : Apart n (p :: ps)) : Apart n ps :=
  ⟨(List.forall_mem_cons.mp h.inside).2, (List.pairwise_cons.mp h.below).2⟩

/-- The first patch can be applied to the file that the others give. -/
theorem applyAll_cons (h : Apart u.lines.length (p :: ps)) :
    applyAll { u with lines := splice 0 ps u.lines } [p] = applyAll u (p :: ps) := by
  have hPlaced : misplaced? u.lines.length 0 (p :: ps) = none :=
    h.misplaced?_eq_none fun q _ => Nat.zero_le q.start
  have hFirst : ∀ q ∈ ps.head?, p.stop ≤ q.start := fun q hq =>
    (List.pairwise_cons.mp h.below).1 q (List.mem_of_mem_head? hq)
  have hInside : p.stop ≤ u.lines.length := h.inside p List.mem_cons_self
  have hStill : p.stop ≤ (splice 0 ps u.lines).length := by
    rw [splice_eq_take_append hFirst, List.length_append, List.length_take]
    omega
  have hOne : Apart (splice 0 ps u.lines).length [p] :=
    ⟨by simpa using hStill, List.pairwise_singleton _ _⟩
  rw [h.applyAll_eq, splice_cons hPlaced]
  exact applyAll_eq hOne

end Apart

end Patch

end DocWiring
