import DocWiring.Proofs.Merge.Insertion
import DocWiring.Proofs.Patch
import DocWiring.Proofs.Source.Encoding

/-! # Merging without removal

When nothing is taken out, lines are put in and all the other lines stay as they are, down to their
bytes; only a comment on one line is taken apart to make room.
-/

namespace DocWiring

namespace Merge

open DocBlock

/-- The lines that annotations are written on. -/
def written (indent eol : List Char) (annotations : List Annotation) : List Line :=
  annotations.map fun a => a.line indent eol

/-- The file of these bytes has been given lines before the line with index `n`: every other line
is as it was, and so is every other byte. -/
structure InsertedAt (bytes : ByteArray) (updated : SourceUnit) (n : Nat) (added : List Line) :
    Prop where
  lines : updated.lines =
    (SourceUnit.ofBytes bytes).lines.take n ++ added ++ (SourceUnit.ofBytes bytes).lines.drop n
  bytes : ∀ out, updated.toBytes = .ok out → ∃ pre new post,
    updated.encoding.encode ((SourceUnit.ofBytes bytes).lines.take n).flatten = .ok pre ∧
      updated.encoding.encode added.flatten = .ok new ∧
      updated.encoding.encode ((SourceUnit.ofBytes bytes).lines.drop n).flatten = .ok post ∧
      bytes = pre ++ post ∧ out = pre ++ new ++ post

theorem insertedAt_of_lines {bytes : ByteArray} {updated : SourceUnit} {n : Nat}
    {added : List Line} (hEncoding : updated.encoding = (SourceUnit.ofBytes bytes).encoding)
    (hLines : updated.lines = (SourceUnit.ofBytes bytes).lines.take n ++ added ++
      (SourceUnit.ofBytes bytes).lines.drop n) :
    InsertedAt bytes updated n added := by
  refine ⟨hLines, fun out hOut => ?_⟩
  rw [SourceUnit.toBytes_eq_ok_iff, SourceUnit.text, hLines, List.flatten_append,
    List.flatten_append] at hOut
  obtain ⟨front, post, hFront, hPost, rfl⟩ := Encoding.encode_append hOut
  obtain ⟨pre, new, hPre, hNew, rfl⟩ := Encoding.encode_append hFront
  refine ⟨pre, new, post, hPre, hNew, hPost, ?_, rfl⟩
  have hBytes := SourceUnit.encode_text_ofBytes bytes
  rw [SourceUnit.text, ← List.take_append_drop n (SourceUnit.ofBytes bytes).lines,
    List.flatten_append, ← hEncoding] at hBytes
  obtain ⟨pre', post', hPre', hPost', rfl⟩ := Encoding.encode_append hBytes
  rw [Except.ok.inj (hPre.symm.trans hPre'), Except.ok.inj (hPost.symm.trans hPost')]

/-- The file after a merge that takes nothing out: the lines of the missing annotations stand
before the last line of the block, which stands where it was found. -/
theorem applied_eq_of_merge {x : Extractor} {u updated : SourceUnit} {cls : ClassNode}
    {extraction : Extraction} {rules : AttributeRules} {p : Patch} (hRead : u.IsRead)
    (hMerge : merge x false u cls extraction rules = .ok (some p))
    (hApplied : Patch.applyAll u [p] = .ok updated) :
    ∃ annotations b, render x extraction rules = .ok annotations ∧ locate u cls = .ok b ∧
      ∀ init last, b.lines = init ++ [last] → updated =
        { u with lines := u.lines.take b.start ++
            (init ++ written b.indent b.eol (missing b annotations) ++ [last]) ++
            u.lines.drop (b.start + b.replaced.length) } := by
  obtain ⟨annotations, b, hRender, hLocate, hBlock⟩ := merge_eq_ok_some_iff.mp hMerge
  obtain ⟨_, _, rfl⟩ := mergeBlock_eq_some_iff.mp hBlock
  obtain ⟨⟨above, below, hAbove, hUnit⟩, _⟩ := framed_of_locate hRead.areCut hLocate
  refine ⟨annotations, b, hRender, hLocate, fun init last hLines => ?_⟩
  rw [Patch.applyAll_singleton hUnit hAbove rfl] at hApplied
  obtain rfl := Except.ok.inj hApplied
  have hFinal : (annotations.foldl insert b).lines =
      init ++ written b.indent b.eol (missing b annotations) ++ [last] :=
    foldl_insert_lines annotations init hLines
  have hTake : u.lines.take b.start = above := by
    rw [hUnit, List.append_assoc, ← hAbove, List.take_left]
  have hDrop : u.lines.drop (b.start + b.replaced.length) = below := by
    rw [hUnit, ← hAbove, ← List.length_append, List.drop_left]
  rw [hTake, hDrop, ← hFinal]
  rfl

/-- A merge that takes nothing out only puts lines in. -/
theorem merge_keeping {x : Extractor} {bytes : ByteArray} {updated : SourceUnit} {cls : ClassNode}
    {extraction : Extraction} {rules : AttributeRules} {p : Patch}
    (hMerge : merge x false (.ofBytes bytes) cls extraction rules = .ok (some p))
    (hApplied : Patch.applyAll (.ofBytes bytes) [p] = .ok updated) :
    ∃ annotations b, render x extraction rules = .ok annotations ∧
      locate (.ofBytes bytes) cls = .ok b ∧
      -- Without a comment, a whole block stands before the class.
      (cls.docComment = none → ∃ line eol,
        (SourceUnit.ofBytes bytes).line? cls.startLine = some line ∧
          eol = eolNear (.ofBytes bytes) line ∧
          InsertedAt bytes updated (cls.startLine - 1)
            ((line.indent ++ opening ++ eol) ::
              (written line.indent eol (missing b annotations) ++
                [closingLine line.indent ++ eol]))) ∧
      -- With a comment on several lines, lines stand before its last one.
      (∀ c, cls.docComment = some c → c.startLine ≠ c.endLine → ∃ first last,
        (SourceUnit.ofBytes bytes).line? c.startLine = some first ∧
          (SourceUnit.ofBytes bytes).line? c.endLine = some last ∧
          (last.eol ≠ [] → InsertedAt bytes updated (c.endLine - 1)
            (written first.indent first.eol (missing b annotations)))) ∧
      -- A comment on one line is taken apart.
      (∀ c, cls.docComment = some c → c.startLine = c.endLine → ∃ line head tail eol,
        (SourceUnit.ofBytes bytes).line? c.startLine = some line ∧
          Text.cutLast? closing line = some (head, tail) ∧
          eol = eolNear (.ofBytes bytes) line ∧
          updated.lines = (SourceUnit.ofBytes bytes).lines.take (c.startLine - 1) ++
            (head ++ eol) :: (written line.indent (Line.eol (head ++ eol)) (missing b annotations) ++
              [closingLine line.indent ++ tail ++ (if (Line.eol tail).isEmpty then eol else [])]) ++
            (SourceUnit.ofBytes bytes).lines.drop c.startLine) := by
  have hRead : (SourceUnit.ofBytes bytes).IsRead := .inr ⟨bytes, rfl⟩
  obtain ⟨annotations, b, hRender, hLocate, hUpdated⟩ :=
    applied_eq_of_merge hRead hMerge hApplied
  refine ⟨annotations, b, hRender, hLocate, ?_, ?_, ?_⟩
  · intro hNone
    rw [locate, hNone] at hLocate
    obtain ⟨line, hLine, rfl⟩ := blank_eq_ok_iff.mp hLocate
    rw [hUpdated [_] _ rfl]
    exact ⟨line, _, hLine, rfl, insertedAt_of_lines rfl (by simp)⟩
  · intro c hSome hSeveral
    rw [locate, hSome] at hLocate
    obtain ⟨first, middle, last, _, _, hChecked, ⟨above, below, hAbove, hUnit⟩, hReplaced, _, hEnd,
      hIndent, hEol, hLines⟩ := ofComment_of_several hRead.areCut hLocate hSeveral
    refine ⟨first, last, hChecked.starts, hChecked.ends, fun hTerminated => ?_⟩
    rw [if_neg (by simpa using hTerminated)] at hLines
    rw [hUpdated (first :: middle) last hLines, hIndent, hEol]
    refine insertedAt_of_lines rfl ?_
    have hIndex : c.endLine - 1 = (above ++ first :: middle).length := by
      rw [← hEnd, hReplaced, ← hAbove]
      simp
    have hSplit : (SourceUnit.ofBytes bytes).lines = above ++ first :: middle ++ last :: below := by
      rw [hUnit, hReplaced]
      simp
    have hStop : b.start + b.replaced.length = (above ++ first :: middle ++ [last]).length := by
      rw [hReplaced, ← hAbove]
      simp
    have hWhole : above ++ first :: middle ++ last :: below =
        above ++ first :: middle ++ [last] ++ below := by simp
    rw [hIndex, hStop, hSplit, List.take_left, List.drop_left, hWhole, List.drop_left, ← hAbove]
    simp
  · intro c hSome hSingle
    rw [locate, hSome] at hLocate
    obtain ⟨line, head, tail, hChecked, _, hReplaced, hStart, hIndent, _, hLines, hEol⟩ :=
      ofComment_of_single hLocate hSingle
    refine ⟨line, head, tail ++ line.eol, _, hChecked.starts, hChecked.cutLast?_line, rfl, ?_⟩
    rw [hUpdated [head ++ eolNear _ line] _ hLines, hIndent, hEol, hReplaced]
    simp [← hStart]

/-- A class with a comment in which a byte is no UTF-8. -/
def latinBytes : ByteArray :=
  ⟨#[0x2F, 0x2A, 0x2A, 0x0A, 0x20, 0x2A, 0x20, 0xE9, 0x0A, 0x2A, 0x2F, 0x0A, 0x63, 0x6C, 0x61, 0x73,
    0x73, 0x20, 0x41, 0x20, 0x7B, 0x7D, 0x0A]⟩

def latinClass : ClassNode :=
  ⟨"A", some "Controller", 4, some ⟨1, 3⟩, [⟨"uses", some (.list [.bare (.string "Post")])⟩]⟩

theorem merge_keeping_latin1 :
    ∃ b, merge (.ofNames ["uses"]) false (.ofBytes latinBytes) latinClass postExtraction usesRules =
        .ok (some ⟨0, 3, ["/**\n".toList, " * é\n".toList, " * @property Post $Post\n".toList,
          "*/\n".toList]⟩) ∧
      locate (.ofBytes latinBytes) latinClass = .ok b ∧
      InsertedAt latinBytes
        ⟨["/**\n".toList, " * é\n".toList, " * @property Post $Post\n".toList, "*/\n".toList,
          "class A {}\n".toList], .latin1⟩ 2
        (written [] ['\n'] (missing b [⟨"Post", "Post"⟩])) := by
  have hMerge : merge (.ofNames ["uses"]) false (.ofBytes latinBytes) latinClass postExtraction usesRules =
      .ok (some ⟨0, 3, ["/**\n".toList, " * é\n".toList, " * @property Post $Post\n".toList,
        "*/\n".toList]⟩) := by decide +kernel
  have hApplied : Patch.applyAll (.ofBytes latinBytes) [⟨0, 3, ["/**\n".toList, " * é\n".toList,
      " * @property Post $Post\n".toList, "*/\n".toList]⟩] =
      .ok ⟨["/**\n".toList, " * é\n".toList, " * @property Post $Post\n".toList, "*/\n".toList,
        "class A {}\n".toList], .latin1⟩ := by decide +kernel
  have hRender : render (.ofNames ["uses"]) postExtraction usesRules = .ok [⟨"Post", "Post"⟩] := by
    decide +kernel
  obtain ⟨annotations, b, hRendered, hLocate, _, hSeveral, _⟩ := merge_keeping hMerge hApplied
  obtain rfl := Except.ok.inj (hRender.symm.trans hRendered)
  obtain ⟨first, last, hFirst, hLast, hInserted⟩ := hSeveral ⟨1, 3⟩ rfl (by decide)
  have hFirst' : (SourceUnit.ofBytes latinBytes).line? 1 = some "/**\n".toList := by decide +kernel
  have hLast' : (SourceUnit.ofBytes latinBytes).line? 3 = some "*/\n".toList := by decide +kernel
  obtain rfl := Option.some.inj (hFirst'.symm.trans hFirst)
  obtain rfl := Option.some.inj (hLast'.symm.trans hLast)
  exact ⟨b, hMerge, hLocate, hInserted (by decide +kernel)⟩

/-- A comment on one line whose closing sign stands after a lone carriage return. -/
def returnBytes : ByteArray :=
  "/** x\r*/\nclass A {}\n".toByteArray

def returnClass : ClassNode :=
  { latinClass with startLine := 2, docComment := some ⟨1, 1⟩ }

/-- The new opening line ends in a carriage return with a line feed, and with it the annotations:
no one end of line fits all three lines. -/
theorem merge_keeping_lone_return :
    ∃ p updated,
      merge (.ofNames ["uses"]) false (.ofBytes returnBytes) returnClass postExtraction usesRules =
          .ok (some p) ∧
        Patch.applyAll (.ofBytes returnBytes) [p] = .ok updated ∧
        (SourceUnit.ofBytes returnBytes).line? 1 = some "/** x\r*/\n".toList ∧
        ∀ eol, updated.lines ≠ ["/** x\r".toList ++ eol, Annotation.line ⟨"Post", "Post"⟩ [] eol,
          " */\n".toList, "class A {}\n".toList] := by
  have hUnit : SourceUnit.ofBytes returnBytes =
      .ofLines ["/** x\r*/\n".toList, "class A {}\n".toList] :=
    (SourceUnit.ofBytes_toByteArray _).trans (by decide +kernel)
  rw [hUnit]
  refine ⟨⟨0, 1, ["/** x\r\n".toList, " * @property Post $Post\r\n".toList, " */\n".toList]⟩,
    .ofLines ["/** x\r\n".toList, " * @property Post $Post\r\n".toList, " */\n".toList,
      "class A {}\n".toList], by decide +kernel, by decide +kernel, by decide +kernel, ?_⟩
  intro eol h
  obtain ⟨hFeed, hAdded⟩ : ['\n'] = eol ∧ _ := by simpa [SourceUnit.ofLines] using h
  rw [← hFeed] at hAdded
  exact absurd hAdded (by decide +kernel)

end Merge

end DocWiring
