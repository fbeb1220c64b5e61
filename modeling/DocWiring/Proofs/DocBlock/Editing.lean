import DocWiring.Proofs.DocBlock.Location

/-! # Editing a doc block

A block that has been found in a file is edited by adding and clearing annotations, in any order and as
often as wanted.  It stays a framed block of whole lines, and it goes on standing for the same lines.
-/

namespace DocWiring

theorem Annotation.not_mem_saying (a : Annotation) (hType : '\n' ∉ a.typeName.toList)
    (hSymbol : '\n' ∉ a.symbol.toList) : '\n' ∉ a.saying := by
  simp [saying, tag, hType, hSymbol]

namespace DocBlock

inductive Edit where
  | insert (a : Annotation)
  | clear

namespace Edit

def apply (b : DocBlock) : Edit → DocBlock
  | .insert a => b.insert a
  | .clear => b.clear

/-- What is added has no line feed in it. -/
def OnOneLine : Edit → Prop
  | .insert a => '\n' ∉ a.typeName.toList ∧ '\n' ∉ a.symbol.toList
  | .clear => True

instance (e : Edit) : Decidable e.OnOneLine :=
  match e with
  | .insert a => inferInstanceAs (Decidable ('\n' ∉ a.typeName.toList ∧ '\n' ∉ a.symbol.toList))
  | .clear => isTrue trivial

end Edit

/-- The block after edits, the first one first. -/
def edited (b : DocBlock) (edits : List Edit) : DocBlock :=
  edits.foldl Edit.apply b

theorem samePlace_apply (b : DocBlock) (e : Edit) : SamePlace b (e.apply b) := by
  cases e with
  | insert a => exact samePlace_insert b a
  | clear => exact samePlace_clear b

theorem samePlace_edited (b : DocBlock) (edits : List Edit) : SamePlace b (b.edited edits) := by
  induction edits generalizing b with
  | nil => exact SamePlace.refl b
  | cons e rest ih => exact (samePlace_apply b e).trans (ih (e.apply b))

theorem Framed.apply {b : DocBlock} {first last : Line} {middle : List Line}
    (h : Framed b first middle last) {e : Edit} (he : e.OnOneLine) :
    ∃ first middle last, Framed (e.apply b) first middle last := by
  cases e with
  | insert a =>
    obtain ⟨more, hMore⟩ := h.insert (a.not_mem_saying he.1 he.2)
    exact ⟨first, more, last, hMore⟩
  | clear => exact ⟨_, _, _, h.clear.1⟩

theorem Framed.edited {b : DocBlock} {first last : Line} {middle : List Line}
    (h : Framed b first middle last) {edits : List Edit} (hEdits : ∀ e ∈ edits, e.OnOneLine) :
    ∃ first middle last, Framed (b.edited edits) first middle last := by
  induction edits generalizing b first middle last with
  | nil => exact ⟨first, middle, last, h⟩
  | cons e rest ih =>
    obtain ⟨he, hRest⟩ := List.forall_mem_cons.mp hEdits
    obtain ⟨_, _, _, hStep⟩ := h.apply he
    exact ih hStep hRest

/-- A class of a file has a block, or a comment or first line that cannot be taken as one.  The block
stands for the lines of the comment, all of which are in the file, and it is framed after any edits. -/
theorem locate_edited (u : SourceUnit) (hRead : u.IsRead) (cls : ClassNode) :
    (∃ n fault, locate u cls = .error (.format n fault)) ∨
    ∃ b, locate u cls = .ok b ∧ b.StandsIn u ∧ b.Spans u cls ∧
      ∀ edits : List Edit, (∀ e ∈ edits, e.OnOneLine) →
        SamePlace b (b.edited edits) ∧
          ∃ first middle last, Framed (b.edited edits) first middle last := by
  cases hLocate : locate u cls with
  | error e =>
    obtain ⟨n, fault, rfl⟩ := eq_format_of_locate hLocate
    exact .inl ⟨n, fault, rfl⟩
  | ok b =>
    obtain ⟨hStands, _, _, _, hFramed⟩ := framed_of_locate hRead.areCut hLocate
    refine .inr ⟨b, rfl, hStands, spans_of_locate hLocate, fun edits hEdits => ?_⟩
    exact ⟨samePlace_edited b edits, hFramed.edited hEdits⟩

/-- A comment on one line with tags on either side, in a file whose last line is not terminated. -/
def tightUnit : SourceUnit :=
  .ofText "<?php\r\n\t/** A @property Old $Old */\r\n\tclass A {}".toList

def tightClass : ClassNode :=
  ⟨"A", some "Shell", 3, some ⟨2, 2⟩, []⟩

def tightEdits : List Edit :=
  [.insert ⟨"Post", "Post"⟩, .clear, .insert ⟨"*/ Tag", "T\r"⟩, .insert ⟨"Tag", "Tag"⟩]

theorem locate_edited_tightUnit :
    (tightUnit.IsRead ∧ ∀ e ∈ tightEdits, e.OnOneLine) ∧
    (∃ b, locate tightUnit tightClass = .ok b ∧ (b.edited tightEdits).lines =
        ["\t/** A\r\n".toList, "\t * @property */ Tag $T\r\r\n".toList,
          "\t * @property Tag $Tag\r\n".toList, "\t */\r\n".toList] ∧
      b.StandsIn tightUnit ∧ b.Spans tightUnit tightClass ∧ SamePlace b (b.edited tightEdits) ∧
      ∃ first middle last, Framed (b.edited tightEdits) first middle last) ∧
    ∃ n fault, locate tightUnit { tightClass with docComment := some ⟨2, 1⟩ } =
      .error (.format n fault) := by
  have hRead : tightUnit.IsRead := .inl ⟨_, rfl⟩
  have hEdits : ∀ e ∈ tightEdits, e.OnOneLine := by decide
  refine ⟨⟨hRead, hEdits⟩, ?_, ?_⟩
  · obtain ⟨n, fault, hError⟩ | ⟨b, hLocate, hStands, hSpans, hAll⟩ :=
      locate_edited tightUnit hRead tightClass
    · have hFound : (locate tightUnit tightClass).isOk = true := by decide +kernel
      rw [hError] at hFound
      cases hFound
    · obtain ⟨hSame, hFramed⟩ := hAll tightEdits hEdits
      have hLines : (locate tightUnit tightClass).map (fun b => (b.edited tightEdits).lines) =
          .ok ["\t/** A\r\n".toList, "\t * @property */ Tag $T\r\r\n".toList,
            "\t * @property Tag $Tag\r\n".toList, "\t */\r\n".toList] := by decide +kernel
      rw [hLocate] at hLines
      exact ⟨b, hLocate, Except.ok.inj hLines, hStands, hSpans, hSame, hFramed⟩
  · obtain ⟨n, fault, hError⟩ | ⟨b, hLocate, _⟩ :=
      locate_edited tightUnit hRead { tightClass with docComment := some ⟨2, 1⟩ }
    · exact ⟨n, fault, hError⟩
    · have hNone : (locate tightUnit { tightClass with docComment := some ⟨2, 1⟩ }).isOk = false := by
        decide +kernel
      rw [hLocate] at hNone
      cases hNone

end DocBlock

end DocWiring
