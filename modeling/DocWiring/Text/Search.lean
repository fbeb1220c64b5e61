/-! # Looking for a mark in a text

A text is cut at the first or at the last place where a mark stands.  Nothing is lost: the part
before, the mark and the part after add up to the text.
-/

namespace DocWiring.Text

/-- What stands before and after the first place of `mark`. -/
def cutFirst? (mark : List Char) : List Char → Option (List Char × List Char)
  | [] => if mark.isEmpty then some ([], []) else none
  | c :: r =>
    if mark.isPrefixOf (c :: r) then some ([], (c :: r).drop mark.length)
    else (cutFirst? mark r).map fun p => (c :: p.1, p.2)

/-- What stands before and after the last place of `mark`. -/
def cutLast? (mark : List Char) : List Char → Option (List Char × List Char)
  | [] => if mark.isEmpty then some ([], []) else none
  | c :: r =>
    match cutLast? mark r with
    | some (before, after) => some (c :: before, after)
    | none => if mark.isPrefixOf (c :: r) then some ([], (c :: r).drop mark.length) else none

/-- Holds the mark somewhere. -/
def holds (mark t : List Char) : Bool :=
  (cutFirst? mark t).isSome

/-- The pieces between the places of a character, of which there is one more than places. -/
def pieces (sep : Char) : List Char → List (List Char)
  | [] => [[]]
  | c :: r =>
    if c = sep then [] :: pieces sep r
    else
      match pieces sep r with
      | [] => [[c]]
      | p :: ps => (c :: p) :: ps

theorem append_drop_of_isPrefixOf {mark t : List Char} (h : mark.isPrefixOf t = true) :
    mark ++ t.drop mark.length = t := by
  obtain ⟨rest, rfl⟩ := List.isPrefixOf_iff_prefix.mp h
  simp

theorem eq_of_cutFirst? {mark t before after : List Char}
    (h : cutFirst? mark t = some (before, after)) : t = before ++ mark ++ after := by
  induction t generalizing before after with
  | nil =>
    cases mark with
    | nil => simp_all [cutFirst?]
    | cons m ms => simp [cutFirst?] at h
  | cons c r ih =>
    unfold cutFirst? at h
    split at h
    next starts =>
      obtain ⟨rfl, rfl⟩ := Prod.mk.inj (Option.some.inj h)
      simpa using (append_drop_of_isPrefixOf starts).symm
    next =>
      obtain ⟨⟨b, a⟩, found, same⟩ := Option.map_eq_some_iff.mp h
      obtain ⟨rfl, rfl⟩ := Prod.mk.inj same
      simpa using ih found

theorem eq_of_cutLast? {mark t before after : List Char}
    (h : cutLast? mark t = some (before, after)) : t = before ++ mark ++ after := by
  induction t generalizing before after with
  | nil =>
    cases mark with
    | nil => simp_all [cutLast?]
    | cons m ms => simp [cutLast?] at h
  | cons c r ih =>
    unfold cutLast? at h
    split at h
    next b a found =>
      obtain ⟨rfl, rfl⟩ := Prod.mk.inj (Option.some.inj h)
      simpa using ih found
    next =>
      split at h
      next starts =>
        obtain ⟨rfl, rfl⟩ := Prod.mk.inj (Option.some.inj h)
        simpa using (append_drop_of_isPrefixOf starts).symm
      next => cases h

end DocWiring.Text
