import DocWiring.Proofs.DocBlock.Frame

/-! # What a block is found to have

A block has exactly the annotations that its lines spell, wherever they stand in a line, and all of them
are legible.  The dollar is the one exception: an annotation whose type starts with it can stand inside
another one, and is then not found.
-/

namespace DocWiring

namespace DocBlock

open Annotation

/-- A block has an annotation exactly if one of its lines spells it somewhere. -/
theorem contains_iff_spelledIn {b : DocBlock} {a : Annotation}
    (hDollar : a.typeName.toList.head? ≠ some '$') :
    b.contains a = true ↔ ∃ l ∈ b.lines, a.SpelledIn (Line.content l) := by
  rw [contains_iff]
  exact exists_congr fun l => and_congr_right fun _ => exists_agrees_iff_spelledIn hDollar

/-- The first star of the second line starts no annotation, and the one that follows does. -/
def starredBlock : DocBlock where
  lines := ["/** @property Tag $Tags\n".toList, " * @property *@Property\tPOST  $post, $posts\n".toList,
    " */\n".toList]
  replaced := []
  start := 0
  indent := []
  eol := ['\n']

theorem contains_iff_spelledIn_starredBlock :
    ("Post".toList.head? ≠ some '$' ∧ "Tag".toList.head? ≠ some '$') ∧
      (∃ l ∈ starredBlock.lines, SpelledIn ⟨"Post", "Post"⟩ (Line.content l)) ∧
      ¬ ∃ l ∈ starredBlock.lines, SpelledIn ⟨"Tag", "Tag"⟩ (Line.content l) := by
  have hPost : "Post".toList.head? ≠ some '$' := by decide
  have hTag : "Tag".toList.head? ≠ some '$' := by decide
  have hMet : starredBlock.contains ⟨"Post", "Post"⟩ = true := by decide +kernel
  have hNotMet : starredBlock.contains ⟨"Tag", "Tag"⟩ = false := by decide +kernel
  refine ⟨⟨hPost, hTag⟩, ?_, ?_⟩
  · exact (contains_iff_spelledIn (a := ⟨"Post", "Post"⟩) hPost).mp hMet
  · intro hSpelled
    rw [(contains_iff_spelledIn (a := ⟨"Tag", "Tag"⟩) hTag).mpr hSpelled] at hNotMet
    cases hNotMet

-- Here the second annotation, of type `$x`, stands inside the first one.
example : findAll "* @property *@property $x $y".toList = [("*@property".toList, ['x'])] := by
  decide +kernel

/-- What is found is a type without white space and a word. -/
theorem legible_of_contains {b : DocBlock} {a : Annotation} (h : b.contains a = true) : a.Legible := by
  obtain ⟨l, _, found, hFound, hAgrees⟩ := contains_iff.mp h
  obtain ⟨_, _, _, _, hRead⟩ := exists_of_mem_scan hFound
  obtain ⟨s, _, rfl, _⟩ := exists_spelling_of_readAt? hRead
  obtain ⟨hType, hSymbol⟩ := Bool.and_eq_true_iff.mp hAgrees
  exact
    { typed := ne_nil_of_sameLetters hType s.typed
      solid := forall_of_sameLetters isBlank_lowerChar hType s.solid
      named := ne_nil_of_sameLetters hSymbol s.named
      word := forall_of_sameLetters isWord_lowerChar hSymbol s.word }

/-- Only an annotation that the block has leaves it as it is. -/
theorem insert_eq_self_iff {b : DocBlock} {a : Annotation} : b.insert a = b ↔ b.contains a = true := by
  constructor
  · intro h
    by_contra hNot
    rw [insert, if_neg hNot] at h
    have hLength := congrArg (fun c => c.lines.length) h
    rcases List.eq_nil_or_concat b.lines with hNil | ⟨init, last, hLines⟩
    · simp [hNil] at hLength
    · simp [hLines] at hLength
  · exact insert_of_contains

end DocBlock

end DocWiring
