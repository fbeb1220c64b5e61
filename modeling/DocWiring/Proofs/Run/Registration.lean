import DocWiring.Proofs.Run.First
import Mathlib.Data.List.Dedup

/-! # Registering classes

The first call with a name decides what the index holds for it.  Every later call with the name is told of
that entry and changes nothing, and no call with another name makes a difference.
-/

namespace DocWiring.ClassIndex

open Run

variable {x y : ClassIndex} {name : String} {e : ClassEntry}
  {calls calls' : List (String × ClassEntry)}

/-- The entry comes from the first call with the name. -/
def IsFirst (name : String) (e : ClassEntry) (calls : List (String × ClassEntry)) : Prop :=
  ∃ before after, calls = before ++ (name, e) :: after ∧ ∀ c ∈ before, c.1 ≠ name

theorem entryOf?_eq_some_iff : entryOf? name calls = some e ↔ IsFirst name e calls := by
  rw [entryOf?, Option.map_eq_some_iff]
  constructor
  · rintro ⟨⟨n, e'⟩, hFound, rfl⟩
    obtain ⟨hName, before, after, hCalls, hOther⟩ := List.find?_eq_some_iff_append.mp hFound
    obtain rfl : n = name := by simpa using hName
    exact ⟨before, after, hCalls, fun c hc => by simpa using hOther c hc⟩
  · rintro ⟨before, after, hCalls, hOther⟩
    refine ⟨(name, e), List.find?_eq_some_iff_append.mpr ⟨by simp, before, after, hCalls, ?_⟩, rfl⟩
    exact fun c hc => by simpa using hOther c hc

theorem entryOf?_eq_none_iff : entryOf? name calls = none ↔ ∀ c ∈ calls, c.1 ≠ name := by
  rw [entryOf?, Option.map_eq_none_iff, List.find?_eq_none]
  simp

/-- Registers classes one after another, with the answer to every call. -/
def registerAll : ClassIndex → List (String × ClassEntry) → List (Option ClassEntry) × ClassIndex
  | x, [] => ([], x)
  | x, (name, entry) :: rest =>
    let (answer, next) := x.register name entry
    let (later, filled) := registerAll next rest
    (answer :: later, filled)

theorem registerAll_cons (x : ClassIndex) (c : String × ClassEntry)
    (rest : List (String × ClassEntry)) : registerAll x (c :: rest) =
      (x.find? c.1 :: (registerAll (x.register c.1 c.2).2 rest).1,
        (registerAll (x.register c.1 c.2).2 rest).2) := by
  rw [← register_fst x c.1 c.2]
  rfl

/-- What is told of a call whose name is taken. -/
def clash? (c : (String × ClassEntry) × Option ClassEntry) : Option Event :=
  c.2.map fun first => .duplicateClass c.1.1 c.1.2.path c.1.2.line first

/-- A run registers its classes one after another, and tells of the calls that are answered with an entry. -/
theorem fillIndex_eq (x : ClassIndex) (calls : List (String × ClassEntry)) :
    fillIndex x calls =
      ((registerAll x calls).2, (calls.zip (registerAll x calls).1).filterMap clash?) := by
  induction calls generalizing x with
  | nil => rfl
  | cons c calls ih =>
    obtain ⟨n, entry⟩ := c
    unfold fillIndex
    rw [registerAll_cons, List.zip_cons_cons, List.filterMap_cons, ← register_fst x n entry]
    simp only [ih]
    cases (x.register n entry).1 <;> rfl

theorem find?_registerAll (x : ClassIndex) (calls : List (String × ClassEntry)) (name : String) :
    (registerAll x calls).2.find? name = (x.find? name).or (entryOf? name calls) := by
  rw [← find?_fillIndex, fillIndex_eq]

theorem length_registerAll (x : ClassIndex) (calls : List (String × ClassEntry)) :
    (registerAll x calls).1.length = calls.length := by
  induction calls generalizing x with
  | nil => rfl
  | cons c calls ih => rw [registerAll_cons, List.length_cons, List.length_cons, ih]

/-- A call is answered with what the index held for its name by then. -/
theorem getElem?_registerAll {i : Nat} {c : String × ClassEntry} (h : calls[i]? = some c) :
    (registerAll x calls).1[i]? = some ((x.find? c.1).or (entryOf? c.1 (calls.take i))) := by
  induction calls generalizing x i with
  | nil => cases h
  | cons d calls ih =>
    rw [registerAll_cons]
    cases i with
    | zero =>
      obtain rfl := Option.some.inj h
      simp [entryOf?]
    | succ i =>
      rw [List.getElem?_cons_succ] at h ⊢
      rw [ih h, find?_register, List.take_succ_cons, entryOf?_cons, Option.or_assoc]

theorem size_registerAll (calls : List (String × ClassEntry)) :
    (registerAll .empty calls).2.size = (calls.map Prod.fst).dedup.length := by
  have hKeys : (registerAll .empty calls).2.entries.keys.Perm (calls.map Prod.fst).dedup := by
    refine (List.perm_ext_iff_of_nodup (registerAll .empty calls).2.entries.nodup
      (List.nodup_dedup _)).mpr fun name => ?_
    have hFind : (registerAll .empty calls).2.entries.find? name = entryOf? name calls :=
      find?_registerAll .empty calls name
    rw [← OrderedMap.keys, ← OrderedMap.isSome_find?_iff, hFind, List.mem_dedup, List.mem_map]
    simp [entryOf?]
  rw [size, OrderedMap.size, ← hKeys.length_eq, OrderedMap.keys, List.length_map]

/-! ## Calls with other names -/

theorem entryOf?_interspersed (h : Interspersed (fun c => c.1 ≠ name) calls calls') :
    entryOf? name calls' = entryOf? name calls := by
  induction h with
  | nil => rfl
  | kept c _ ih => rw [entryOf?_cons, entryOf?_cons, ih]
  | added hOther _ ih => rw [entryOf?_cons, if_neg hOther, Option.none_or, ih]

/-- The answers to the calls with one name. -/
def answersTo (x : ClassIndex) (name : String) (calls : List (String × ClassEntry)) :
    List (Option ClassEntry) :=
  ((calls.zip (registerAll x calls).1).filter fun c => c.1.1 = name).map Prod.snd

theorem answersTo_cons (x : ClassIndex) (name : String) (c : String × ClassEntry)
    (calls : List (String × ClassEntry)) : answersTo x name (c :: calls) =
      (if c.1 = name then [x.find? name] else []) ++ answersTo (x.register c.1 c.2).2 name calls := by
  rw [answersTo, registerAll_cons, List.zip_cons_cons, List.filter_cons, answersTo]
  by_cases hSame : c.1 = name <;> simp [hSame]

theorem answersTo_interspersed (hFind : y.find? name = x.find? name)
    (h : Interspersed (fun c => c.1 ≠ name) calls calls') :
    answersTo y name calls' = answersTo x name calls := by
  induction h generalizing x y with
  | nil => rfl
  | kept c _ ih =>
    have hNext : (y.register c.1 c.2).2.find? name = (x.register c.1 c.2).2.find? name := by
      rw [find?_register, find?_register, hFind]
    rw [answersTo_cons, answersTo_cons, ih hNext, hFind]
  | @added c _ _ hOther _ ih =>
    have hNext : (y.register c.1 c.2).2.find? name = x.find? name := by
      rw [find?_register, if_neg hOther, Option.or_none, hFind]
    rw [answersTo_cons, if_neg hOther, List.nil_append, ih hNext]

/-! ## What registration leaves -/

/-- The answers to some calls, and the index after them, go back to the first call with each name. -/
structure FirstWins (calls : List (String × ClassEntry)) (answers : List (Option ClassEntry))
    (x : ClassIndex) : Prop where
  found : ∀ name e, x.find? name = some e ↔ IsFirst name e calls
  missing : ∀ name, x.find? name = none ↔ ∀ c ∈ calls, c.1 ≠ name
  size : x.size = (calls.map Prod.fst).dedup.length
  /-- A call is answered with the first entry of its name, if an earlier call had the name. -/
  answered : answers.length = calls.length ∧ ∀ i c, calls[i]? = some c → ∃ answer,
    answers[i]? = some answer ∧ (∀ first, answer = some first ↔ IsFirst c.1 first (calls.take i)) ∧
      (answer = none ↔ ∀ d ∈ calls.take i, d.1 ≠ c.1)
  /-- Paths are compared by their parts. -/
  owned : ∀ name path line, x.isOwner name path line = true ↔
    ∃ e, IsFirst name e calls ∧ e.path.parts = path.parts ∧ e.line = line

theorem firstWins_registerAll (calls : List (String × ClassEntry)) :
    FirstWins calls (registerAll .empty calls).1 (registerAll .empty calls).2 := by
  have hFind (name : String) : (registerAll .empty calls).2.find? name = entryOf? name calls :=
    find?_registerAll .empty calls name
  refine ⟨fun name e => ?_, fun name => ?_, size_registerAll calls,
    ⟨length_registerAll _ calls, fun i c hCall => ?_⟩, fun name path line => ?_⟩
  · rw [hFind, entryOf?_eq_some_iff]
  · rw [hFind, entryOf?_eq_none_iff]
  · exact ⟨_, getElem?_registerAll hCall, fun _ => entryOf?_eq_some_iff, entryOf?_eq_none_iff⟩
  · simp only [isOwner_iff, hFind, entryOf?_eq_some_iff, Path.same_iff]

/-- Whatever calls fill an index, the first call with a name wins, and calls with other names put in anywhere
change neither the entry and the owner of the name nor the answers to its calls. -/
theorem registerAll_firstWins (calls : List (String × ClassEntry)) :
    FirstWins calls (registerAll .empty calls).1 (registerAll .empty calls).2 ∧
    ∀ name calls', Interspersed (fun c => c.1 ≠ name) calls calls' →
      (registerAll .empty calls').2.find? name = (registerAll .empty calls).2.find? name ∧
      (registerAll .empty calls').2.isOwner name = (registerAll .empty calls).2.isOwner name ∧
      answersTo .empty name calls' = answersTo .empty name calls := by
  refine ⟨firstWins_registerAll calls, fun name calls' hOthers => ?_⟩
  have hFind : (registerAll .empty calls').2.find? name = (registerAll .empty calls).2.find? name := by
    rw [find?_registerAll, find?_registerAll, entryOf?_interspersed hOthers]
  refine ⟨hFind, ?_, answersTo_interspersed rfl hOthers⟩
  funext path line
  rw [isOwner, isOwner, hFind]

def firstCall : String × ClassEntry :=
  ("A", ⟨"Shell", ⟨"src/a.php"⟩, 2⟩)

/-- A name in three calls, with a call of another name between them. -/
def twinCalls : List (String × ClassEntry) :=
  [firstCall, ("B", ⟨"A", ⟨"b.php"⟩, 2⟩), ("A", ⟨"Model", ⟨"b.php"⟩, 5⟩), firstCall]

/-- The calls with two more of other names. -/
def mixedCalls : List (String × ClassEntry) :=
  ("C", ⟨"A", ⟨"src/a.php"⟩, 2⟩) :: twinCalls ++ [("D", ⟨"C", ⟨"d.php"⟩, 2⟩)]

theorem registerAll_firstWins_twins :
    Interspersed (fun c => c.1 ≠ "A") twinCalls mixedCalls ∧
    (registerAll .empty twinCalls).1[2]? = some (some firstCall.2) ∧
    (registerAll .empty mixedCalls).2.find? "A" = some firstCall.2 ∧
    (registerAll .empty mixedCalls).2.isOwner "A" ⟨"src//a.php"⟩ 2 = true ∧
    (registerAll .empty mixedCalls).2.isOwner "A" ⟨"./src/a.php"⟩ 2 = false ∧
    answersTo .empty "A" mixedCalls = [none, some firstCall.2, some firstCall.2] := by
  have hMixed : Interspersed (fun c => c.1 ≠ "A") twinCalls mixedCalls := by
    refine .added (by decide) ?_
    have hLast := Interspersed.insert (P := fun c : String × ClassEntry => c.1 ≠ "A") twinCalls []
      (a := ("D", ⟨"C", ⟨"d.php"⟩, 2⟩)) (by decide)
    rwa [List.append_nil] at hLast
  have hFirst : IsFirst "A" firstCall.2 twinCalls := ⟨[], _, rfl, by simp⟩
  have hEarlier : IsFirst "A" firstCall.2 (twinCalls.take 2) := ⟨[], _, rfl, by simp⟩
  obtain ⟨hWins, hOthers⟩ := registerAll_firstWins twinCalls
  obtain ⟨hFind, hOwner, hAnswers⟩ := hOthers "A" mixedCalls hMixed
  obtain ⟨answer, hAnswer, hSome, _⟩ := hWins.answered.2 2 _ rfl
  rw [(hSome _).mpr hEarlier] at hAnswer
  have hOwned := (hWins.owned "A" ⟨"src//a.php"⟩ 2).mpr ⟨_, hFirst, by decide +kernel, rfl⟩
  have hOther : (registerAll .empty twinCalls).2.isOwner "A" ⟨"./src/a.php"⟩ 2 = false := by
    decide +kernel
  have hTold : answersTo .empty "A" twinCalls = [none, some firstCall.2, some firstCall.2] := by
    decide +kernel
  rw [hFind, hOwner, hAnswers]
  exact ⟨hMixed, hAnswer, (hWins.found "A" _).mpr hFirst, hOwned, hOther, hTold⟩

end DocWiring.ClassIndex
