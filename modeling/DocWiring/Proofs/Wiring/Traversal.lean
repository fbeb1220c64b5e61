import DocWiring.Proofs.Wiring

/-! # Visits

A traversal keeps the path and the line of every visit, also of one that fails, and nothing else.  A visit
is refused exactly if an earlier one was to the same place; any other gives what extraction gives.
-/

namespace DocWiring

theorem ClassKey.same_iff {a b : ClassKey} :
    a.same b = true ↔ a.path.parts = b.path.parts ∧ a.line = b.line := by
  rw [same, Bool.and_eq_true, Path.same_iff, beq_iff_eq]

namespace Traversal

variable {t : Traversal} {x : Extractor} {path other : Path} {cls cls' : ClassNode}

theorem met_iff :
    t.met path cls = true ↔ ∃ k ∈ t.visited, k.same ⟨path, cls.startLine⟩ = true := by
  simp [met]

/-- A visit adds its own place to those that have been met. -/
theorem met_visit_iff : (t.visit x path cls).2.met other cls' = true ↔
    t.met other cls' = true ∨ path.parts = other.parts ∧ cls.startLine = cls'.startLine := by
  unfold visit
  split
  next hMet =>
    refine ⟨.inl, ?_⟩
    rintro (hOther | ⟨hParts, hLine⟩)
    · exact hOther
    · obtain ⟨k, hk, hSame⟩ := met_iff.mp hMet
      obtain ⟨hPath, hStart⟩ := ClassKey.same_iff.mp hSame
      exact met_iff.mpr ⟨k, hk, ClassKey.same_iff.mpr ⟨hPath.trans hParts, hStart.trans hLine⟩⟩
  next =>
    rw [met, List.any_cons, Bool.or_eq_true, ClassKey.same_iff, or_comm]
    rfl

structure Visit where
  path : Path
  cls : ClassNode

namespace Visit

/-- The paths agree in their parts, and the classes start on one line. -/
def SamePlace (v w : Visit) : Prop :=
  v.path.parts = w.path.parts ∧ v.cls.startLine = w.cls.startLine

instance : DecidableRel SamePlace := fun _ _ =>
  inferInstanceAs (Decidable (_ ∧ _))

/-- The error that says of a class that it has been encountered already. -/
def refusal (v : Visit) : Error :=
  .structural (.duplicateClass v.cls.name v.path v.cls.startLine)

end Visit

variable {v w : Visit} {vs : List Visit}

theorem extract_ne_refusal (x : Extractor) (v w : Visit) : x.extract v.path v.cls ≠ .error w.refusal := by
  intro h
  obtain ⟨_, _, _, hFault⟩ := Extractor.extract_eq_error h
  cases hFault

theorem visit_of_met (h : t.met v.path v.cls = true) :
    (t.visit x v.path v.cls).1 = .error v.refusal := by
  rw [visit, if_pos h, Visit.refusal]

theorem visit_of_not_met (h : ¬ t.met v.path v.cls = true) :
    (t.visit x v.path v.cls).1 = x.extract v.path v.cls := by
  rw [visit, if_neg h]

/-- A visit gives something exactly if it is the first at its place and extraction succeeds. -/
theorem visit_eq_ok_iff {e : Extraction} {next : Traversal} :
    t.visit x path cls = (.ok e, next) ↔ t.met path cls = false ∧ x.extract path cls = .ok e ∧
      next = ⟨⟨path, cls.startLine⟩ :: t.visited⟩ := by
  unfold visit
  split
  next hMet => simp [hMet]
  next hMet => simp [hMet, Prod.ext_iff, eq_comm]

/-- What visits give one after another, and the traversal after them. -/
def visitAll (x : Extractor) : Traversal → List Visit → List (Except Error Extraction) × Traversal
  | t, [] => ([], t)
  | t, v :: rest =>
    let (given, next) := t.visit x v.path v.cls
    let (later, last) := visitAll x next rest
    (given :: later, last)

theorem visitAll_cons (x : Extractor) (t : Traversal) (v : Visit) (rest : List Visit) :
    visitAll x t (v :: rest) =
      ((t.visit x v.path v.cls).1 :: (visitAll x (t.visit x v.path v.cls).2 rest).1,
        (visitAll x (t.visit x v.path v.cls).2 rest).2) :=
  rfl

theorem visitAll_append (x : Extractor) (t : Traversal) (before after : List Visit) :
    (visitAll x t (before ++ after)).1 =
      (visitAll x t before).1 ++ (visitAll x (visitAll x t before).2 after).1 := by
  induction before generalizing t with
  | nil => rfl
  | cons v before ih => rw [List.cons_append, visitAll_cons, visitAll_cons, ih, List.cons_append]

theorem length_visitAll (x : Extractor) (t : Traversal) (vs : List Visit) :
    (visitAll x t vs).1.length = vs.length := by
  induction vs generalizing t with
  | nil => rfl
  | cons v vs ih => rw [visitAll_cons, List.length_cons, List.length_cons, ih]

/-- Of all that has gone before, only the places of the visits are left. -/
theorem met_visitAll_iff : (visitAll x t vs).2.met v.path v.cls = true ↔
    t.met v.path v.cls = true ∨ ∃ w ∈ vs, w.SamePlace v := by
  induction vs generalizing t with
  | nil => simp [visitAll]
  | cons w vs ih =>
    rw [visitAll_cons, ih, met_visit_iff, or_assoc, List.exists_mem_cons_iff]
    rfl

/-- In a sequence of visits, one is refused exactly if an earlier one, whatever came of it, was to the same
place.  Every other one gives what extraction gives for its path and its class alone. -/
theorem visitAll_admits (x : Extractor) (before : List Visit) (v : Visit) (after : List Visit) :
    ∃ given later, (visitAll x .start (before ++ v :: after)).1 =
        (visitAll x .start before).1 ++ given :: later ∧
      (visitAll x .start before).1.length = before.length ∧ later.length = after.length ∧
      ((∃ u : Visit, given = .error u.refusal) ↔ ∃ w ∈ before, w.SamePlace v) ∧
      ((∃ w ∈ before, w.SamePlace v) → given = .error v.refusal) ∧
      ((∀ w ∈ before, ¬ w.SamePlace v) → given = x.extract v.path v.cls) := by
  have hMet : (visitAll x .start before).2.met v.path v.cls = true ↔ ∃ w ∈ before, w.SamePlace v := by
    rw [met_visitAll_iff, or_iff_right]
    simp [start, met]
  have hSplit := visitAll_append x .start before (v :: after)
  rw [visitAll_cons] at hSplit
  refine ⟨_, _, hSplit, length_visitAll x _ _, length_visitAll x _ _, ⟨?_, ?_⟩, ?_, ?_⟩
  · rintro ⟨u, hRefused⟩
    by_contra hFresh
    rw [visit_of_not_met (hMet.not.mpr hFresh)] at hRefused
    exact extract_ne_refusal x v u hRefused
  · intro hSame
    exact ⟨v, visit_of_met (hMet.mpr hSame)⟩
  · intro hSame
    exact visit_of_met (hMet.mpr hSame)
  · intro hFresh
    refine visit_of_not_met (hMet.not.mpr ?_)
    rintro ⟨w, hw, hSame⟩
    exact hFresh w hw hSame

def usesExtractor : Extractor :=
  Extractor.ofNames ["uses"]

def toolbarAt (path : String) : Visit :=
  ⟨⟨path⟩, Merge.toolbarClass⟩

/-- The first of these visits fails. -/
def firstVisits : List Visit :=
  [⟨⟨"src/a.php"⟩, Merge.twiceClass⟩, toolbarAt "b.php"]

/-- Of two more spellings of the path, the first has the same parts and is refused. -/
theorem visitAll_admits_spellings :
    usesExtractor.extract ⟨"src/a.php"⟩ Merge.twiceClass =
      .error (.structural (.duplicateAttribute "uses" "A" ⟨"src/a.php"⟩ 2)) ∧
    (∃ w ∈ firstVisits, w.SamePlace (toolbarAt "src//./a.php")) ∧
    (∀ w ∈ firstVisits ++ [toolbarAt "src//./a.php"], ¬ w.SamePlace (toolbarAt "./src/a.php")) ∧
    (visitAll usesExtractor .start
      (firstVisits ++ [toolbarAt "src//./a.php", toolbarAt "./src/a.php"])).1.drop 2 =
      [.error (toolbarAt "src//./a.php").refusal,
        .ok ⟨⟨⟨"./src/a.php"⟩, 2⟩, OrderedMap.ofList [("uses", SortedMap.ofList [("Post", "Post")])]⟩] := by
  have hTwice : usesExtractor.extract ⟨"src/a.php"⟩ Merge.twiceClass =
      .error (.structural (.duplicateAttribute "uses" "A" ⟨"src/a.php"⟩ 2)) := by decide +kernel
  have hAgain : ∃ w ∈ firstVisits, w.SamePlace (toolbarAt "src//./a.php") := by decide +kernel
  have hOther : ∀ w ∈ firstVisits ++ [toolbarAt "src//./a.php"],
      ¬ w.SamePlace (toolbarAt "./src/a.php") := by decide +kernel
  have hExtract : usesExtractor.extract ⟨"./src/a.php"⟩ Merge.toolbarClass =
      .ok ⟨⟨⟨"./src/a.php"⟩, 2⟩, OrderedMap.ofList [("uses", SortedMap.ofList [("Post", "Post")])]⟩ := by
    decide +kernel
  obtain ⟨_, _, hRun, hEarlier, hLater, _, hRefused, _⟩ :=
    visitAll_admits usesExtractor firstVisits (toolbarAt "src//./a.php") []
  obtain rfl := hRefused hAgain
  obtain rfl := List.eq_nil_of_length_eq_zero hLater
  obtain ⟨_, _, hAll, _, hNone, _, _, hFresh⟩ := visitAll_admits usesExtractor
    (firstVisits ++ [toolbarAt "src//./a.php"]) (toolbarAt "./src/a.php") []
  obtain rfl := (hFresh hOther).trans hExtract
  obtain rfl := List.eq_nil_of_length_eq_zero hNone
  refine ⟨hTwice, hAgain, hOther, ?_⟩
  rw [List.append_assoc, List.singleton_append] at hAll
  rw [hAll, hRun, List.append_assoc]
  exact List.drop_left' hEarlier

end Traversal

end DocWiring
