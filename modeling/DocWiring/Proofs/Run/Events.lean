import DocWiring.Proofs.Run.Registration
import DocWiring.Proofs.Run.Truth

/-! # What is told of a run

The events of the level of errors are those of the failures in the report, one for each and in their order,
and the events of an update are those of the changes.  This is so whichever files can be read and written.
-/

namespace DocWiring

/-- The message of an error begins with the kind of the error. -/
theorem Error.message_ne_updated (e : Error) : e.message ≠ "doc blocks updated" := by
  -- Only the beginning of a message is known; rewriting it by associativity would take its literals apart.
  have hLonger {front : String} (back : String)
      (h : ¬ front.toList <+: "doc blocks updated".toList) :
      ¬ (front ++ back).toList <+: "doc blocks updated".toList := by
    rw [String.toList_append]
    exact fun hBegins => h ((List.prefix_append _ _).trans hBegins)
  suffices hNot : ¬ e.message.toList <+: "doc blocks updated".toList by
    intro h
    rw [h] at hNot
    exact hNot List.prefix_rfl
  cases e with
  | configuration fault => exact hLonger _ (by decide +kernel)
  | parse path reason => exact hLonger _ (hLonger _ (hLonger _ (by decide +kernel)))
  | structural fault => exact hLonger _ (by decide +kernel)
  | ancestorCycle className chain => exact hLonger _ (hLonger _ (hLonger _ (by decide +kernel)))
  | format line fault => exact hLonger _ (hLonger _ (hLonger _ (by decide +kernel)))
  | io fault => exact hLonger _ (by decide +kernel)
  | json reason => exact hLonger _ (by decide +kernel)
  | yaml reason => exact hLonger _ (by decide +kernel)

namespace Event

def isError (e : Event) : Bool :=
  e.level = .error

def isUpdate (e : Event) : Bool :=
  e.message = "doc blocks updated"

/-- The event is told where the failure is, of which class if it is that of a class, and why. -/
structure TellsOfFailure (e : Event) (f : Failure) : Prop where
  path : e.fields.lookup "path" = some (.text f.path.text)
  className : e.fields.lookup "class" = f.className?.map .text
  message : e.message = f.error.message

/-- The event is told where the change is and how many classes it patches. -/
structure TellsOfChange (dryRun : Bool) (e : Event) (c : FileChange) : Prop where
  level : e.level = .info
  path : e.fields.lookup "path" = some (.text c.path.text)
  classes : e.fields.lookup "classes" = some (.number c.classes.length)
  dryRun : e.fields.lookup "dry_run" = some (.flag dryRun)

/-- Every failure and every change is told of once, and in their order. -/
structure Tell (dryRun : Bool) (events : List Event) (failures : List Failure)
    (changes : List FileChange) : Prop where
  failures : List.Forall₂ TellsOfFailure (events.filter isError) failures
  changes : List.Forall₂ (TellsOfChange dryRun) (events.filter isUpdate) changes

variable {dryRun : Bool} {events events' : List Event} {failures failures' : List Failure}
  {changes changes' : List FileChange} {e : Event}

theorem Tell.nil : Tell dryRun [] [] [] :=
  ⟨.nil, .nil⟩

theorem Tell.append (h : Tell dryRun events failures changes)
    (h' : Tell dryRun events' failures' changes') :
    Tell dryRun (events ++ events') (failures ++ failures') (changes ++ changes') := by
  constructor
  · rw [List.filter_append]
    exact List.rel_append h.failures h'.failures
  · rw [List.filter_append]
    exact List.rel_append h.changes h'.changes

theorem Tell.flatMap {α : Type} {events : α → List Event} {failures : α → List Failure}
    {changes : α → List FileChange} {xs : List α}
    (h : ∀ x ∈ xs, Tell dryRun (events x) (failures x) (changes x)) :
    Tell dryRun (xs.flatMap events) (xs.flatMap failures) (xs.flatMap changes) := by
  induction xs with
  | nil => exact .nil
  | cons x xs ih =>
    obtain ⟨hHere, hRest⟩ := List.forall_mem_cons.mp h
    exact hHere.append (ih hRest)

theorem Tell.flatMap_failures {α : Type} {events : α → List Event} {failures : α → List Failure}
    {xs : List α} (h : ∀ x ∈ xs, Tell dryRun (events x) (failures x) []) :
    Tell dryRun (xs.flatMap events) (xs.flatMap failures) [] := by
  have hNone : (xs.flatMap fun _ => ([] : List FileChange)) = [] :=
    List.flatMap_eq_nil_iff.mpr fun _ _ => rfl
  have hAll := Tell.flatMap h
  rwa [hNone] at hAll

theorem tell_failure {f : Failure} (hLevel : e.level = .error) (h : TellsOfFailure e f) :
    Tell dryRun [e] [f] [] := by
  have hError : isError e = true := decide_eq_true hLevel
  have hUpdate : isUpdate e = false := decide_eq_false (h.message ▸ f.error.message_ne_updated)
  constructor
  · rw [List.filter_singleton, hError]
    exact .cons h .nil
  · rw [List.filter_singleton, hUpdate]
    exact .nil

theorem tell_updated (c : FileChange) :
    Tell dryRun [.updated c.path c.classes.length dryRun] [] [c] :=
  ⟨.nil, .cons ⟨rfl, rfl, rfl, rfl⟩ .nil⟩

/-- The event is told neither of a failure nor of a change. -/
def IsQuiet (e : Event) : Prop :=
  e.isError = false ∧ e.isUpdate = false

theorem tell_quiet (h : ∀ e ∈ events, e.IsQuiet) : Tell dryRun events [] [] := by
  constructor
  · rw [List.filter_eq_nil_iff.mpr fun e he => by rw [(h e he).1]; exact Bool.false_ne_true]
    exact .nil
  · rw [List.filter_eq_nil_iff.mpr fun e he => by rw [(h e he).2]; exact Bool.false_ne_true]
    exact .nil

end Event

namespace FileResult

open Event

variable {dryRun : Bool} {r : FileResult}

theorem tell_class (path : Path) (o : ClassNode × ClassOutcome) :
    Tell dryRun (classEvent? path o).toList (classFailure? path o).toList [] := by
  obtain ⟨cls, outcome⟩ := o
  cases outcome with
  | failed e => exact tell_failure rfl ⟨rfl, rfl, rfl⟩
  | unrecognized ancestor => exact ⟨.nil, .nil⟩
  | passedOver | complete | patched => exact .nil

/-- The classes of a file come in their order, and the file as a whole after them. -/
theorem tell_events (hNames : r.Names) :
    Tell dryRun (r.events dryRun) r.failures r.change?.toList := by
  have hClasses : Tell dryRun (r.outcomes.filterMap (classEvent? r.path))
      (r.outcomes.filterMap (classFailure? r.path)) [] := by
    rw [List.filterMap_eq_flatMap_toList, List.filterMap_eq_flatMap_toList]
    exact Tell.flatMap_failures fun o _ => tell_class r.path o
  refine hClasses.append ?_
  unfold Names change? at hNames
  unfold change?
  cases hEnding : r.ending with
  | kept => exact .nil
  | failed e => exact tell_failure rfl ⟨rfl, rfl, rfl⟩
  | changed change bytes =>
    rw [hEnding] at hNames
    have hPath : change.path = r.path := (hNames change rfl).1
    rw [← hPath]
    exact tell_updated change

/-- Writing leaves the result of a file as it is, or fails for a file that has bytes to be written. -/
inductive Written : FileResult → FileResult → Prop
  | done (r : FileResult) : Written r r
  | failed (r : FileResult) (cause : OsError) (hBytes : r.bytes?.isSome = true) :
    Written r (r.unwritten cause)

theorem Names.written {r' : FileResult} (h : r.Names) (hWritten : Written r r') : r'.Names := by
  cases hWritten with
  | done => exact h
  | failed cause hBytes =>
    intro c hChange
    cases hChange

end FileResult

namespace Run

open Event FileResult

variable {r : Run} {e : Event}

theorem isQuiet_of_parseEvent? {parsed : Except Error ParsedFile} (h : parseEvent? parsed = some e) :
    e.IsQuiet := by
  unfold parseEvent? at h
  split at h
  next =>
    split at h
    next =>
      obtain rfl := Option.some.inj h
      exact ⟨rfl, rfl⟩
    next => cases h
  next => cases h

theorem isQuiet_of_mem_emptinessEvents {files : List ParsedFile} (h : e ∈ emptinessEvents files) :
    e.IsQuiet := by
  unfold emptinessEvents at h
  split at h
  next =>
    obtain rfl := List.mem_singleton.mp h
    exact ⟨rfl, rfl⟩
  next => cases h

theorem isQuiet_of_mem_clashes {x : ClassIndex} {calls : List (String × ClassEntry)}
    (h : e ∈ (fillIndex x calls).2) : e.IsQuiet := by
  rw [ClassIndex.fillIndex_eq] at h
  obtain ⟨c, _, hClash⟩ := List.mem_filterMap.mp h
  obtain ⟨first, _, rfl⟩ := Option.map_eq_some_iff.mp hClash
  exact ⟨rfl, rfl⟩

theorem tell_parseFailures (dryRun : Bool) (parsed : List (Path × Except Error ParsedFile)) :
    Tell dryRun ((parsed.filterMap parseFailure?).map fileEvent) (parsed.filterMap parseFailure?) [] := by
  have hEach : ∀ f ∈ parsed.filterMap parseFailure?, Tell dryRun [fileEvent f] [f] [] := by
    intro f hf
    obtain ⟨p, _, hFailure⟩ := List.mem_filterMap.mp hf
    obtain ⟨e, _, rfl⟩ := parseFailure?_eq_some_iff.mp hFailure
    exact tell_failure rfl ⟨rfl, rfl, rfl⟩
  simpa [List.map_eq_flatMap] using Tell.flatMap_failures hEach

/-- What is told of a run is told of the failures and the changes in its report. -/
theorem tell_report (hClashes : ∀ e ∈ r.clashes, e.IsQuiet) (hNames : ∀ q ∈ r.results, q.Names) :
    Tell r.dryRun r.events r.report.failures r.report.changes := by
  have hParsed : ∀ e ∈ r.parsed.filterMap (fun p => parseEvent? p.2), e.IsQuiet := by
    intro e he
    obtain ⟨p, _, hEvent⟩ := List.mem_filterMap.mp he
    exact isQuiet_of_parseEvent? hEvent
  have hEmpty : ∀ e ∈ emptinessEvents (ready r.parsed), e.IsQuiet :=
    fun _ => isQuiet_of_mem_emptinessEvents
  have hBuilt : ∀ e ∈ [Event.indexBuilt r.index.size (ready r.parsed).length], e.IsQuiet := by
    intro e he
    obtain rfl := List.mem_singleton.mp he
    exact ⟨rfl, rfl⟩
  have hFiles : Tell r.dryRun (r.results.flatMap (FileResult.events r.dryRun))
      (r.results.flatMap FileResult.failures) (r.results.filterMap FileResult.change?) := by
    rw [List.filterMap_eq_flatMap_toList]
    exact Tell.flatMap fun q hq => tell_events (hNames q hq)
  have hAll := ((tell_quiet hParsed).append (tell_parseFailures r.dryRun r.parsed)).append
    (tell_quiet hEmpty) |>.append (tell_quiet hClashes) |>.append (tell_quiet hBuilt) |>.append hFiles
  simpa [events, report] using hAll

theorem written_writeOne (t : FileTree ByteArray) (q : FileResult) : Written q (writeOne t q).1 := by
  unfold writeOne
  split
  next => exact .done q
  next hBytes =>
    split
    next => exact .done q
    next cause _ => exact .failed q cause (by rw [hBytes]; rfl)

theorem written_writeAll (t : FileTree ByteArray) (rs : List FileResult) :
    List.Forall₂ Written rs (writeAll t rs).1 := by
  induction rs generalizing t with
  | nil => exact .nil
  | cons q rs ih =>
    rw [writeAll_cons]
    exact .cons (written_writeOne t q) (ih _)

/-- The run tells of its failures and of its changes, and a change counts the classes patched in its file. -/
structure Told (r : Run) : Prop where
  events : Tell r.dryRun r.events r.report.failures r.report.changes
  names : ∀ q ∈ r.results, q.Names

theorem told_of_written {s : Setup} {inputs : List Input} {results : List FileResult}
    (hPlan : plan s inputs = .ok r) (hWritten : List.Forall₂ Written r.results results) :
    Told { r with results := results } := by
  unfold plan at hPlan
  simp only [resultsOf_eq] at hPlan
  obtain rfl := Except.ok.inj hPlan
  have hNames : ∀ q ∈ results, q.Names := by
    intro q hq
    obtain ⟨planned, hMem⟩ := exists_of_mem_right hWritten hq
    obtain ⟨file, _, rfl⟩ := List.mem_map.mp (List.of_mem_zip hMem).1
    exact (names_resultOf s _ file).written (List.forall₂_zip hWritten hMem)
  exact ⟨tell_report (fun _ => isQuiet_of_mem_clashes) hNames, hNames⟩

/-- A run over any files tells of every failure and of every change in its report, whichever of its files
can be written. -/
theorem events_tell (s : Setup) :
    (∀ inputs, ∃ r, plan s inputs = .ok r ∧
      ∀ results, List.Forall₂ Written r.results results → Told { r with results := results }) ∧
    ∀ t paths, ∃ r after, onTree s t paths = .ok (r, after) ∧ Told r := by
  constructor
  · intro inputs
    obtain ⟨r, hPlan⟩ := exists_plan s inputs
    exact ⟨r, hPlan, fun _ => told_of_written hPlan⟩
  · intro t paths
    obtain ⟨r, hPlan⟩ := exists_plan s (paths.map fun p => (p, t.read p))
    have hRun : onTree s t paths =
        .ok ({ r with results := (writeAll t r.results).1 }, (writeAll t r.results).2) := by
      rw [onTree, hPlan]
      rfl
    exact ⟨_, _, hRun, told_of_written hPlan (written_writeAll t r.results)⟩

/-- The results of files when none of them can be written. -/
def refused (rs : List FileResult) : List FileResult :=
  rs.map fun q => if q.bytes?.isSome then q.unwritten (.other "disk full") else q

theorem written_refused (rs : List FileResult) : List.Forall₂ Written rs (refused rs) := by
  refine List.forall₂_map_right_iff.mpr (List.forall₂_same.mpr fun q _ => ?_)
  split
  next hBytes => exact .failed q _ hBytes
  next => exact .done q

def shellInputs : List Input :=
  shellPaths.map fun p => (p, shellTree.read p)

def errorLines (r : Run) : List String :=
  (r.events.filter isError).map line

def updateLines (r : Run) : List String :=
  (r.events.filter isUpdate).map line

theorem events_tell_shellTree :
    (∃ r, plan shellSetup shellInputs = .ok r ∧ Told { r with results := refused r.results } ∧
      errorLines { r with results := refused r.results } =
        ["ERROR IO error: No such file or directory (os error 2) path=c.php",
          "ERROR IO error: disk full path=a.php"] ∧
      updateLines { r with results := refused r.results } = []) ∧
    ∃ r after, onTree shellSetup shellTree shellPaths = .ok (r, after) ∧ Told r ∧
      errorLines r = ["ERROR IO error: No such file or directory (os error 2) path=c.php"] ∧
      updateLines r = [" INFO doc blocks updated path=a.php classes=1 dry_run=false"] := by
  obtain ⟨hAny, hTree⟩ := events_tell shellSetup
  constructor
  · have hLines : (plan shellSetup shellInputs).map (fun r =>
        (errorLines { r with results := refused r.results },
          updateLines { r with results := refused r.results })) =
        .ok (["ERROR IO error: No such file or directory (os error 2) path=c.php",
          "ERROR IO error: disk full path=a.php"], []) := by decide +kernel
    obtain ⟨r, hPlan, hTold⟩ := hAny shellInputs
    rw [hPlan] at hLines
    obtain ⟨hErrors, hUpdates⟩ := Prod.mk.inj (Except.ok.inj hLines)
    exact ⟨r, hPlan, hTold _ (written_refused r.results), hErrors, hUpdates⟩
  · have hLines : (onTree shellSetup shellTree shellPaths).map (fun r =>
        (errorLines r.1, updateLines r.1)) =
        .ok (["ERROR IO error: No such file or directory (os error 2) path=c.php"],
          [" INFO doc blocks updated path=a.php classes=1 dry_run=false"]) := by decide +kernel
    obtain ⟨r, after, hRun, hTold⟩ := hTree shellTree shellPaths
    rw [hRun] at hLines
    obtain ⟨hErrors, hUpdates⟩ := Prod.mk.inj (Except.ok.inj hLines)
    exact ⟨r, after, hRun, hTold, hErrors, hUpdates⟩

end Run

end DocWiring
