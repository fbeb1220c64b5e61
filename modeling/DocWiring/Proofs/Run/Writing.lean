import DocWiring.Proofs.FileTree
import DocWiring.Run.Tree

/-! # The files after a run

Whether a file can be written does not depend on what is in the other files.  A file that is written
holds its new bytes afterwards, a file that cannot be written fails, and no other file changes.
-/

namespace DocWiring.Run

open FileTree

variable {t u : FileTree ByteArray} {r : FileResult} {rs : List FileResult} {place : Location}
  {bytes : ByteArray}

def writeOne (t : FileTree ByteArray) (r : FileResult) : FileResult × FileTree ByteArray :=
  match r.bytes? with
  | none => (r, t)
  | some bytes =>
    match t.write r.path bytes with
    | .ok u => (r, u)
    | .error cause => (r.unwritten cause, t)

theorem writeAll_cons (t : FileTree ByteArray) (r : FileResult) (rs : List FileResult) :
    writeAll t (r :: rs) = ((writeOne t r).1 :: (writeAll (writeOne t r).2 rs).1,
      (writeAll (writeOne t r).2 rs).2) := by
  rw [writeAll, writeOne]
  cases r.bytes? with
  | none => rfl
  | some bytes =>
    dsimp only
    cases t.write r.path bytes <;> rfl

def settled (t : FileTree ByteArray) (r : FileResult) : FileResult :=
  (writeOne t r).1

theorem writeOne_of_none (h : r.bytes? = none) : writeOne t r = (r, t) := by
  rw [writeOne, h]

theorem writeOne_of_ok (h : r.bytes? = some bytes) (hWrite : t.write r.path bytes = .ok u) :
    writeOne t r = (r, u) := by
  simp only [writeOne, h, hWrite]

theorem writeOne_of_error {cause : OsError} (h : r.bytes? = some bytes)
    (hWrite : t.write r.path bytes = .error cause) : writeOne t r = (r.unwritten cause, t) := by
  simp only [writeOne, h, hWrite]

theorem settled_of_none (h : r.bytes? = none) : settled t r = r := by
  rw [settled, writeOne_of_none h]

theorem settled_of_writable (h : t.writable r.path = .ok place) : settled t r = r := by
  cases hBytes : r.bytes? with
  | none => exact settled_of_none hBytes
  | some bytes => rw [settled, writeOne_of_ok hBytes (write_eq_ok_iff.mpr ⟨place, h, rfl⟩)]

theorem settled_cases (t : FileTree ByteArray) (r : FileResult) :
    settled t r = r ∨ ∃ cause, settled t r = r.unwritten cause := by
  unfold settled writeOne
  split
  next => exact .inl rfl
  next =>
    split
    next => exact .inl rfl
    next cause _ => exact .inr ⟨cause, rfl⟩

@[simp] theorem path_settled (t : FileTree ByteArray) (r : FileResult) :
    (settled t r).path = r.path := by
  rcases settled_cases t r with h | ⟨_, h⟩ <;> rw [h]
  rfl

@[simp] theorem outcomes_settled (t : FileTree ByteArray) (r : FileResult) :
    (settled t r).outcomes = r.outcomes := by
  rcases settled_cases t r with h | ⟨_, h⟩ <;> rw [h]
  rfl

theorem settled_of_sameShape (h : SameShape t u) (r : FileResult) : settled u r = settled t r := by
  have hWritable := h.writable_eq r.path
  cases hOld : t.writable r.path with
  | ok place => rw [settled_of_writable hOld, settled_of_writable (hWritable.trans hOld)]
  | error cause =>
    cases hBytes : r.bytes? with
    | none => rw [settled_of_none hBytes, settled_of_none hBytes]
    | some bytes =>
      rw [settled, settled, writeOne_of_error hBytes (write_eq_error_iff.mpr hOld),
        writeOne_of_error hBytes (write_eq_error_iff.mpr (hWritable.trans hOld))]

/-- Writing a file is a change at the place where it lies, and nowhere else. -/
theorem writeOne_eq (h : t.LeadsToFile r.path) :
    ∃ place c, t.locate r.path = .ok place ∧ t.find? place = some (.file c) ∧
      (writeOne t r).2 = match (settled t r).bytes? with
        | some bytes => t.put place bytes
        | none => t := by
  obtain ⟨place, c, hLocate, hFile⟩ := h
  refine ⟨place, c, hLocate, hFile, ?_⟩
  cases hBytes : r.bytes? with
  | none => rw [settled, writeOne_of_none hBytes, hBytes]
  | some bytes =>
    cases hWrite : t.write r.path bytes with
    | error cause =>
      rw [settled, writeOne_of_error hBytes hWrite]
      rfl
    | ok u =>
      rw [settled, writeOne_of_ok hBytes hWrite, hBytes]
      exact write_of_file hLocate hFile hWrite

theorem sameShape_writeOne (h : t.LeadsToFile r.path) : SameShape t (writeOne t r).2 := by
  obtain ⟨place, c, _, hFile, hAfter⟩ := writeOne_eq h
  rw [hAfter]
  cases (settled t r).bytes? with
  | none => exact .refl t
  | some bytes => exact sameShape_put hFile bytes

theorem find?_writeOne (h : t.LeadsToFile r.path) (hLocate : t.locate r.path = .ok place)
    (hBytes : (settled t r).bytes? = some bytes) :
    (writeOne t r).2.find? place = some (.file bytes) := by
  obtain ⟨other, c, hOther, _, hAfter⟩ := writeOne_eq h
  obtain rfl : place = other := Except.ok.inj (hLocate.symm.trans hOther)
  rw [hAfter, hBytes]
  exact find?_put_self

theorem find?_writeOne_of_ne (h : t.LeadsToFile r.path)
    (hOther : (settled t r).bytes?.isSome = true → t.locate r.path ≠ .ok place) :
    (writeOne t r).2.find? place = t.find? place := by
  obtain ⟨other, c, hLocate, hFile, hAfter⟩ := writeOne_eq h
  rw [hAfter]
  cases hBytes : (settled t r).bytes? with
  | none => rfl
  | some bytes =>
    have hNe : other ≠ place := by
      rintro rfl
      exact hOther (by rw [hBytes]; rfl) hLocate
    exact find?_put_of_ne hFile hNe

theorem writeAll_of_nothing {rs : List FileResult} (h : ∀ r ∈ rs, r.bytes? = none) :
    writeAll t rs = (rs, t) := by
  induction rs with
  | nil => rfl
  | cons r rs ih =>
    obtain ⟨hHere, hRest⟩ := List.forall_mem_cons.mp h
    rw [writeAll_cons, writeOne_of_none hHere, ih hRest]

section Run

variable (h : ∀ r ∈ rs, t.LeadsToFile r.path)

include h

theorem sameShape_writeAll : SameShape t (writeAll t rs).2 := by
  induction rs generalizing t with
  | nil => exact .refl t
  | cons r rs ih =>
    obtain ⟨hHere, hRest⟩ := List.forall_mem_cons.mp h
    have hShape := sameShape_writeOne hHere
    rw [writeAll_cons]
    exact hShape.trans (ih fun q hq => (hRest q hq).of_sameShape hShape)

theorem map_settled_eq : (writeAll t rs).1 = rs.map (settled t) := by
  induction rs generalizing t with
  | nil => rfl
  | cons r rs ih =>
    obtain ⟨hHere, hRest⟩ := List.forall_mem_cons.mp h
    have hShape := sameShape_writeOne hHere
    rw [writeAll_cons, List.map_cons, ih fun q hq => (hRest q hq).of_sameShape hShape]
    have hSame : settled (writeOne t r).2 = settled t := funext (settled_of_sameShape hShape)
    rw [hSame]
    rfl

theorem find?_writeAll
    (hOther : ∀ r ∈ rs, (settled t r).bytes?.isSome = true → t.locate r.path ≠ .ok place) :
    (writeAll t rs).2.find? place = t.find? place := by
  induction rs generalizing t with
  | nil => rfl
  | cons r rs ih =>
    obtain ⟨hHere, hRest⟩ := List.forall_mem_cons.mp h
    obtain ⟨hNot, hOther⟩ := List.forall_mem_cons.mp hOther
    have hShape := sameShape_writeOne hHere
    rw [writeAll_cons, ih (fun q hq => (hRest q hq).of_sameShape hShape) ?_,
      find?_writeOne_of_ne hHere hNot]
    intro q hq
    rw [settled_of_sameShape hShape, hShape.locate_eq]
    exact hOther q hq

/-- A file that is written holds its bytes when all is written. -/
theorem find?_writeAll_of_mem (hDistinct : t.Distinct (rs.map FileResult.path)) (hr : r ∈ rs)
    (hLocate : t.locate r.path = .ok place) (hBytes : (settled t r).bytes? = some bytes) :
    (writeAll t rs).2.find? place = some (.file bytes) := by
  induction rs generalizing t with
  | nil => cases hr
  | cons q rs ih =>
    obtain ⟨hHere, hRest⟩ := List.forall_mem_cons.mp h
    obtain ⟨hApart, hDistinct⟩ := List.pairwise_cons.mp hDistinct
    have hShape := sameShape_writeOne hHere
    have hLeads : ∀ q' ∈ rs, (writeOne t q).2.LeadsToFile q'.path :=
      fun q' hq' => (hRest q' hq').of_sameShape hShape
    rw [writeAll_cons]
    rcases List.mem_cons.mp hr with rfl | hr
    · rw [find?_writeAll hLeads, find?_writeOne hHere hLocate hBytes]
      intro q' hq' _
      rw [hShape.locate_eq]
      exact hApart q'.path (List.mem_map_of_mem hq') place hLocate
    · apply ih hLeads
      · exact Distinct.of_sameShape hDistinct hShape
      · exact hr
      · rw [hShape.locate_eq, hLocate]
      · rw [settled_of_sameShape hShape, hBytes]

theorem read_writeAll (hDistinct : t.Distinct (rs.map FileResult.path)) (hr : r ∈ rs) :
    (writeAll t rs).2.read r.path =
      match (settled t r).bytes? with
      | some bytes => .ok bytes
      | none => t.read r.path := by
  obtain ⟨place, c, hLocate, hFile⟩ := h r hr
  have hAfter : (writeAll t rs).2.locate r.path = .ok place := by
    rw [(sameShape_writeAll h).locate_eq, hLocate]
  cases hBytes : (settled t r).bytes? with
  | some bytes =>
    exact read_eq_ok_iff.mpr ⟨place, hAfter, find?_writeAll_of_mem h hDistinct hr hLocate hBytes⟩
  | none =>
    have hKept : (writeAll t rs).2.find? place = some (.file c) := by
      rw [find?_writeAll h, hFile]
      intro q hq hWritten hSame
      rw [hDistinct.eq_of_locate hq hr hSame hLocate, hBytes] at hWritten
      cases hWritten
    exact (read_eq_ok_iff.mpr ⟨place, hAfter, hKept⟩).trans
      (read_eq_ok_iff.mpr ⟨place, hLocate, hFile⟩).symm

/-- The order in which different files are written does not matter. -/
theorem writeAll_perm {rs' : List FileResult} (hDistinct : t.Distinct (rs.map FileResult.path))
    (hPerm : rs.Perm rs') : (writeAll t rs').2 = (writeAll t rs).2 := by
  have h' : ∀ r ∈ rs', t.LeadsToFile r.path := fun r hr => h r (hPerm.mem_iff.mpr hr)
  have hDistinct' := Distinct.perm hDistinct (hPerm.map FileResult.path)
  have hShape : SameShape (writeAll t rs).2 (writeAll t rs').2 :=
    (sameShape_writeAll h).symm.trans (sameShape_writeAll h')
  refine hShape.eq_of_find?_eq fun place => ?_
  by_cases hWritten : ∃ r ∈ rs, (settled t r).bytes?.isSome = true ∧ t.locate r.path = .ok place
  · obtain ⟨r, hr, hSome, hLocate⟩ := hWritten
    obtain ⟨bytes, hBytes⟩ := Option.isSome_iff_exists.mp hSome
    rw [find?_writeAll_of_mem h hDistinct hr hLocate hBytes,
      find?_writeAll_of_mem h' hDistinct' (hPerm.mem_iff.mp hr) hLocate hBytes]
  · have hNot : ∀ r ∈ rs, (settled t r).bytes?.isSome = true → t.locate r.path ≠ .ok place :=
      fun r hr hSome hLocate => hWritten ⟨r, hr, hSome, hLocate⟩
    rw [find?_writeAll h hNot, find?_writeAll h' fun r hr => hNot r (hPerm.mem_iff.mpr hr)]

end Run

theorem failures_unwritten (r : FileResult) (cause : OsError) : (r.unwritten cause).failures ≠ [] := by
  simp [FileResult.failures, FileResult.unwritten]

end DocWiring.Run
