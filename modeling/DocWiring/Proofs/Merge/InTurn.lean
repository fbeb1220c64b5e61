import DocWiring.Proofs.DocBlock.Relocation
import DocWiring.Proofs.Merge.Insertion
import DocWiring.Proofs.Patch

/-! # One class at a time

The classes of a file can be merged together, each with the file as it was, or one at a time from the
last to the first, each with the file that the classes below it left.  Nothing that a class below
changes matters to a merge: its doc block ends where the class starts, and the end of line it takes
from the file is that of its own lines.
-/

namespace DocWiring

/-- The class and its doc comment start below a line. -/
structure ClassNode.Below (n : Nat) (cls : ClassNode) : Prop where
  starts : n < cls.startLine
  comment : ∀ c ∈ cls.docComment, n < c.startLine

theorem ClassNode.Below.of_le {m n : Nat} {cls : ClassNode} (h : cls.Below n) (hm : m ≤ n) :
    cls.Below m :=
  ⟨Nat.lt_of_le_of_lt hm h.starts, fun c hc => Nat.lt_of_le_of_lt hm (h.comment c hc)⟩

/-- The classes stand one below the other, each with its doc comment between the class before it and
itself. -/
structure ClassNode.Stacked (classes : List ClassNode) : Prop where
  commented : ∀ cls ∈ classes, ∀ c ∈ cls.docComment, c.endLine ≤ cls.startLine
  below : classes.IsChain fun cls next => next.Below cls.startLine

theorem ClassNode.Stacked.of_cons {cls : ClassNode} {classes : List ClassNode}
    (h : Stacked (cls :: classes)) : (∀ c ∈ cls.docComment, c.endLine ≤ cls.startLine) ∧
      (∀ other ∈ classes, other.Below cls.startLine) ∧ Stacked classes := by
  obtain ⟨hHead, hTail⟩ := List.forall_mem_cons.mp h.commented
  let R (cls next : ClassNode) : Prop := next.Below cls.startLine
  have : Trans R R R := ⟨fun hNext hThen => hThen.of_le hNext.starts.le⟩
  have hPairs : (cls :: classes).Pairwise R := h.below.pairwise
  exact ⟨hHead, (List.pairwise_cons.mp hPairs).1, hTail, h.below.of_cons⟩

namespace DocBlock

variable {u : SourceUnit} {cls : ClassNode} {b : DocBlock}

theorem le_start_of_below (h : locate u cls = .ok b) {n : Nat} (hBelow : cls.Below n) :
    n ≤ b.start := by
  have hSpans := spans_of_locate h
  cases hComment : cls.docComment with
  | some c =>
    obtain ⟨hStart, _⟩ := hSpans.comment c hComment
    have hAbove := hBelow.comment c hComment
    omega
  | none =>
    obtain ⟨hStart, _⟩ := hSpans.bare hComment
    have hAbove := hBelow.starts
    omega

/-- No line that a block stands for is below the start of the class. -/
theorem stop_of_locate (h : locate u cls = .ok b)
    (hDoc : ∀ c ∈ cls.docComment, c.endLine ≤ cls.startLine) :
    b.start + b.replaced.length ≤ cls.startLine := by
  have hSpans := spans_of_locate h
  cases hComment : cls.docComment with
  | some c => exact (hSpans.comment c hComment).2 ▸ hDoc c hComment
  | none =>
    obtain ⟨hStart, hNone⟩ := hSpans.bare hComment
    rw [hNone, List.length_nil]
    omega

theorem locate_spliced (hCut : Line.AreCut u.lines)
    (hDoc : ∀ c ∈ cls.docComment, c.endLine ≤ cls.startLine) {ps : List Patch}
    (hBelow : ∀ p ∈ ps, cls.startLine ≤ p.start ∧ p.start < u.lines.length) :
    locate { u with lines := Patch.splice 0 ps u.lines } cls = locate u cls := by
  cases ps with
  | nil => rfl
  | cons p ps =>
    obtain ⟨hStart, hInside⟩ := hBelow p List.mem_cons_self
    have hLength : (u.lines.take cls.startLine).length = cls.startLine := by
      rw [List.length_take]
      omega
    have hParts : Line.AreCut (u.lines.take cls.startLine ++ u.lines.drop cls.startLine) := by
      rwa [List.take_append_drop]
    have hWhole : ∀ l ∈ u.lines.take cls.startLine, Line.Whole l := by
      apply hParts.whole_of_append
      rw [Ne, List.drop_eq_nil_iff]
      omega
    have hSpliced : Patch.splice 0 (p :: ps) u.lines = u.lines.take cls.startLine ++
        Patch.splice cls.startLine (p :: ps) (u.lines.drop cls.startLine) :=
      Patch.splice_eq_take_append (by simpa using hStart) u.lines
    apply locate_above hWhole (List.take_append_drop _ _).symm hSpliced
    · rw [hLength]
    · rw [hLength]
      exact hDoc

end DocBlock

namespace Merge

open DocBlock

/-- A class with the wiring and the rules that it is merged with. -/
structure Job where
  cls : ClassNode
  extraction : Extraction
  rules : AttributeRules

def Job.merge (x : Extractor) (remove : Bool) (u : SourceUnit) (j : Job) :
    Except Error (Option Patch) :=
  Merge.merge x remove u j.cls j.extraction j.rules

/-- The patch that came of a merge. -/
def patchOf? (result : Except Error (Option Patch)) : Option Patch :=
  result.toOption.join

/-- The patches of the classes, all for the same unit.  A class that fails has none. -/
def together (x : Extractor) (remove : Bool) (u : SourceUnit) (jobs : List Job) : List Patch :=
  jobs.filterMap fun j => patchOf? (j.merge x remove u)

/-- Merges the classes one at a time, the last one first, and applies the patch of each to the unit
that the next one finds.  Gives the last unit with what came of the merges. -/
def inTurn (x : Extractor) (remove : Bool) (u : SourceUnit) :
    List Job → Except Error (SourceUnit × List (Except Error (Option Patch)))
  | [] => .ok (u, [])
  | j :: rest => do
    let (v, results) ← inTurn x remove u rest
    let result := j.merge x remove v
    return (← Patch.applyAll v (patchOf? result).toList, result :: results)

variable {x : Extractor} {remove : Bool} {u : SourceUnit} {j : Job} {jobs : List Job} {p : Patch}

theorem patchOf?_eq_some_iff {result : Except Error (Option Patch)} :
    patchOf? result = some p ↔ result = .ok (some p) := by
  cases result <;> simp [patchOf?, Except.toOption]

/-- Where the lines of a patch lie when the class has one. -/
theorem exists_locate_of_merge (h : j.merge x remove u = .ok (some p)) :
    ∃ b, locate u j.cls = .ok b ∧ p.start = b.start ∧ p.stop = b.start + b.replaced.length := by
  obtain ⟨annotations, b, _, hLocate, hBlock⟩ := merge_eq_ok_some_iff.mp h
  obtain ⟨_, _, rfl⟩ := mergeBlock_eq_some_iff.mp hBlock
  exact ⟨b, hLocate, rfl, rfl⟩

theorem merge_of_locate_eq (x : Extractor) (remove : Bool) {v : SourceUnit}
    (h : locate v j.cls = locate u j.cls) : j.merge x remove v = j.merge x remove u := by
  unfold Job.merge Merge.merge
  rw [h]

theorem start_of_mem_together {n : Nat} (hBelow : ∀ j ∈ jobs, j.cls.Below n)
    (hp : p ∈ together x remove u jobs) : n ≤ p.start ∧ p.start < u.lines.length := by
  obtain ⟨j, hj, hPatch⟩ := List.mem_filterMap.mp hp
  obtain ⟨b, hLocate, hStart, _⟩ := exists_locate_of_merge (patchOf?_eq_some_iff.mp hPatch)
  rw [hStart]
  exact ⟨le_start_of_below hLocate (hBelow j hj), (spans_of_locate hLocate).inside⟩

/-- The patches of classes that stand one below the other do so as well, and merging the classes in
turn applies them. -/
theorem apart_and_inTurn_eq (x : Extractor) (remove : Bool) (hCut : Line.AreCut u.lines)
    (hStacked : ClassNode.Stacked (jobs.map Job.cls)) :
    Patch.Apart u.lines.length (together x remove u jobs) ∧
      inTurn x remove u jobs =
        .ok ({ u with lines := Patch.splice 0 (together x remove u jobs) u.lines },
          jobs.map (Job.merge x remove u)) := by
  induction jobs with
  | nil => exact ⟨⟨by simp [together], by simp [together]⟩, rfl⟩
  | cons j rest ih =>
    obtain ⟨hDoc, hBelow, hRest⟩ := hStacked.of_cons
    obtain ⟨hApart, hTurn⟩ := ih hRest
    have hLater : ∀ q ∈ together x remove u rest,
        j.cls.startLine ≤ q.start ∧ q.start < u.lines.length := fun q hq =>
      start_of_mem_together (fun k hk => hBelow k.cls (List.mem_map_of_mem hk)) hq
    have hSame := merge_of_locate_eq x remove (locate_spliced hCut hDoc hLater)
    rw [inTurn, hTurn]
    simp only [bind, Except.bind, pure, Except.pure, hSame, List.map_cons]
    cases hPatch : patchOf? (j.merge x remove u) with
    | none =>
      have hTogether : together x remove u (j :: rest) = together x remove u rest :=
        List.filterMap_cons_none hPatch
      rw [hTogether, Option.toList_none, Patch.applyAll_nil]
      exact ⟨hApart, rfl⟩
    | some p =>
      have hTogether : together x remove u (j :: rest) = p :: together x remove u rest :=
        List.filterMap_cons_some hPatch
      obtain ⟨b, hLocate, _, hStop⟩ := exists_locate_of_merge (patchOf?_eq_some_iff.mp hPatch)
      have hInside := (spans_of_locate hLocate).stop
      have hEnd := stop_of_locate hLocate hDoc
      have hFirst : Patch.Apart u.lines.length (p :: together x remove u rest) := by
        refine ⟨List.forall_mem_cons.mpr ⟨by omega, hApart.inside⟩,
          List.pairwise_cons.mpr ⟨fun q hq => ?_, hApart.below⟩⟩
        have hStart := (hLater q hq).1
        omega
      rw [hTogether, Option.toList_some, hFirst.applyAll_cons, hFirst.applyAll_eq]
      exact ⟨hFirst, rfl⟩

/-- Classes that stand one below the other can be merged together or in turn. -/
theorem inTurn_eq_together (x : Extractor) (remove : Bool) {u : SourceUnit} {jobs : List Job}
    (hRead : u.IsRead) (hStacked : ClassNode.Stacked (jobs.map Job.cls)) :
    ∃ updated, Patch.applyAll u (together x remove u jobs) = .ok updated ∧
      inTurn x remove u jobs = .ok (updated, jobs.map (Job.merge x remove u)) := by
  obtain ⟨hApart, hTurn⟩ := apart_and_inTurn_eq x remove hRead.areCut hStacked
  exact ⟨_, hApart.applyAll_eq, hTurn⟩

/-- A class whose doc comment gets shorter, above one without a doc comment. -/
def pairUnit : SourceUnit :=
  .ofText "<?php\n/** Posts\n * @property Old $Old\n * @property Older $Older\n */\nclass A {}\nclass B {}\n".toList

def pairJobs : List Job :=
  [⟨⟨"A", some "Shell", 6, some ⟨2, 5⟩, []⟩, postExtraction, usesRules⟩,
    ⟨⟨"B", some "Shell", 7, none, []⟩, postExtraction, usesRules⟩]

theorem inTurn_pair :
    together (.ofNames ["uses"]) true pairUnit pairJobs =
        [⟨1, 4, ["/** Posts\n".toList, " * @property Post $Post\n".toList, " */\n".toList]⟩,
          ⟨6, 0, ["/**\n".toList, " * @property Post $Post\n".toList, " */\n".toList]⟩] ∧
      ∃ updated, Patch.applyAll pairUnit (together (.ofNames ["uses"]) true pairUnit pairJobs) =
          .ok updated ∧
        inTurn (.ofNames ["uses"]) true pairUnit pairJobs =
          .ok (updated, pairJobs.map (Job.merge (.ofNames ["uses"]) true pairUnit)) := by
  refine ⟨by decide +kernel, inTurn_eq_together _ _ (.inl ⟨_, rfl⟩) ⟨?_, ?_⟩⟩
  · simp [pairJobs]
  · have hBelow : (⟨"B", some "Shell", 7, none, []⟩ : ClassNode).Below 6 := ⟨by decide, by simp⟩
    simpa [pairJobs] using hBelow

end Merge

end DocWiring
