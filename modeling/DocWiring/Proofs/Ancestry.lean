import DocWiring.Ancestry
import DocWiring.Proofs.Maps
import Mathlib.Data.List.Chain
import Mathlib.Data.List.Range

/-! # Lineages

A lineage is a class with its ancestors in turn.  A lineage that leaves the index is the longest one of
its class and comes back to no class.  The search for the top ancestor follows the lineage for a bounded
number of rounds; it finds the name outside exactly if the lineage up to it has at most `maxChain` names.
-/

namespace DocWiring

namespace ClassIndex

variable {x : ClassIndex} {name top : String} {chain : List String}

/-- The index has the second name as the parent of the first. -/
def Extends (x : ClassIndex) (child parent : String) : Prop :=
  (x.find? child).map ClassEntry.parent = some parent

instance (x : ClassIndex) : DecidableRel x.Extends := fun _ _ =>
  inferInstanceAs (Decidable (_ = _))

/-- A class and, after each name, the parent that the index has for it. -/
structure Lineage (x : ClassIndex) (name : String) (chain : List String) : Prop where
  starts : chain.head? = some name
  linked : chain.IsChain x.Extends

/-- The lineage goes on to a name that the index does not know. -/
structure Reaches (x : ClassIndex) (name : String) (chain : List String) (top : String) : Prop
    extends Lineage x name chain where
  ends : chain.getLast? = some top
  outside : x.find? top = none

theorem extends_iff {child parent : String} :
    x.Extends child parent ↔ ∃ e, x.find? child = some e ∧ e.parent = parent :=
  Option.map_eq_some_iff

theorem Extends.unique {child parent parent' : String} (h : x.Extends child parent)
    (h' : x.Extends child parent') : parent' = parent :=
  Option.some.inj (h'.symm.trans h)

theorem Extends.find?_ne_none {child parent : String} (h : x.Extends child parent) :
    x.find? child ≠ none := by
  obtain ⟨e, hFind, _⟩ := extends_iff.mp h
  simp [hFind]

theorem Lineage.exists_cons (h : Lineage x name chain) : ∃ rest, chain = name :: rest :=
  List.head?_eq_some_iff.mp h.starts

theorem lineage_cons_cons_iff {child parent : String} {rest : List String} :
    Lineage x name (child :: parent :: rest) ↔
      child = name ∧ x.Extends child parent ∧ Lineage x parent (parent :: rest) := by
  constructor
  · intro h
    obtain ⟨hExtends, hRest⟩ := List.isChain_cons_cons.mp h.linked
    exact ⟨Option.some.inj h.starts, hExtends, rfl, hRest⟩
  · rintro ⟨rfl, hExtends, hRest⟩
    exact ⟨rfl, hRest.linked.cons_cons hExtends⟩

theorem Reaches.of_append (before : List String) {after : List String} {c : String}
    (h : Reaches x name (before ++ c :: after) top) : Reaches x c (c :: after) top where
  starts := rfl
  linked := h.linked.right_of_append
  ends := by
    rw [← h.ends, List.getLast?_append_of_ne_nil _ (by simp)]
  outside := h.outside

/-- A lineage that leaves the index is the longest one. -/
theorem Reaches.longest {chain' : List String} (h : Reaches x name chain top)
    (h' : Lineage x name chain') : chain' <+: chain := by
  induction chain generalizing name chain' with
  | nil => cases h.starts
  | cons child rest ih =>
    obtain ⟨rest', rfl⟩ := h'.exists_cons
    obtain rfl := Option.some.inj h.starts
    cases rest' with
    | nil => simp
    | cons parent' rest' =>
      obtain ⟨_, hExtends', hRest'⟩ := lineage_cons_cons_iff.mp h'
      cases rest with
      | nil =>
        obtain rfl := Option.some.inj h.ends
        exact absurd h.outside hExtends'.find?_ne_none
      | cons parent rest =>
        obtain ⟨_, hExtends, _⟩ := lineage_cons_cons_iff.mp h.toLineage
        obtain rfl := hExtends.unique hExtends'
        exact List.cons_prefix_cons.mpr ⟨rfl, ih (Reaches.of_append [child] h) hRest'⟩

theorem Reaches.unique {chain' : List String} {top' : String} (h : Reaches x name chain top)
    (h' : Reaches x name chain' top') : chain' = chain ∧ top' = top := by
  have hSame : chain' = chain :=
    (h.longest h'.toLineage).eq_of_length_le (h'.longest h.toLineage).length_le
  refine ⟨hSame, ?_⟩
  rw [hSame] at h'
  exact Option.some.inj (h'.ends.symm.trans h.ends)

theorem Reaches.nodup (h : Reaches x name chain top) : chain.Nodup := by
  induction chain generalizing name with
  | nil => exact List.nodup_nil
  | cons child rest ih =>
    obtain rfl := Option.some.inj h.starts
    refine List.nodup_cons.mpr ⟨?_, ?_⟩
    · intro hMem
      -- The shorter lineage from the second place of the class would be the same one.
      obtain ⟨before, after, rfl⟩ := List.append_of_mem hMem
      have hAgain := Reaches.of_append (child :: before) h
      have hLength := congrArg List.length (h.unique hAgain).1
      simp only [List.length_cons, List.length_append] at hLength
      omega
    · cases rest with
      | nil => exact List.nodup_nil
      | cons parent rest => exact ih (Reaches.of_append [child] h)

/-- The last name stands earlier in the chain, and no other name stands twice. -/
def ComesBack (chain : List String) : Prop :=
  ∃ init last, chain = init ++ [last] ∧ last ∈ init ∧ init.Nodup

theorem ComesBack.not_nodup (h : ComesBack chain) : ¬ chain.Nodup := by
  obtain ⟨init, last, rfl, hMem, _⟩ := h
  intro hNodup
  exact (List.nodup_append.mp hNodup).2.2 last hMem last (by simp) rfl

/-- A class whose lineage comes back to a class has no way out of the index. -/
theorem Lineage.not_reaches (h : Lineage x name chain) (hBack : ComesBack chain)
    (chain' : List String) (top : String) : ¬ Reaches x name chain' top := by
  intro hReaches
  exact hBack.not_nodup (hReaches.nodup.sublist (hReaches.longest h).sublist)

/-! ## Rounds of the search

A round of the search goes on from the last name of a chain, which is given with its last name first.
-/

/-- The search for the top ancestor of a name comes from a chain to a result, after so many parents. -/
inductive Climbs (x : ClassIndex) (name : String) :
    List String → Nat → Except Error String → Prop
  | outside {current : String} {chain : List String} (hFind : x.find? current = none) :
      Climbs x name (current :: chain) 0 (.ok current)
  | stopped {current parent : String} {chain : List String} (hParent : x.Extends current parent)
      (hStop : parent ∈ current :: chain ∨ maxChain < (parent :: current :: chain).length) :
      Climbs x name (current :: chain) 1
        (.error (.ancestorCycle name (parent :: current :: chain).reverse))
  | round {current parent : String} {chain : List String} {n : Nat} {r : Except Error String}
      (hParent : x.Extends current parent) (hFresh : parent ∉ current :: chain)
      (hShort : (parent :: current :: chain).length ≤ maxChain)
      (hRest : Climbs x name (parent :: current :: chain) n r) :
      Climbs x name (current :: chain) (n + 1) r

theorem Climbs.unique {n m : Nat} {r s : Except Error String} (h : Climbs x name chain n r)
    (h' : Climbs x name chain m s) : m = n ∧ s = r := by
  induction h generalizing m with
  | outside hFind =>
    cases h' with
    | outside => exact ⟨rfl, rfl⟩
    | stopped hParent => exact absurd hFind hParent.find?_ne_none
    | round hParent => exact absurd hFind hParent.find?_ne_none
  | stopped hParent hStop =>
    cases h' with
    | outside hFind => exact absurd hFind hParent.find?_ne_none
    | stopped hParent' =>
      obtain rfl := hParent.unique hParent'
      exact ⟨rfl, rfl⟩
    | round hParent' hFresh hShort =>
      obtain rfl := hParent.unique hParent'
      exact absurd hStop (not_or.mpr ⟨hFresh, Nat.not_lt.mpr hShort⟩)
  | round hParent hFresh hShort _ ih =>
    cases h' with
    | outside hFind => exact absurd hFind hParent.find?_ne_none
    | stopped hParent' hStop =>
      obtain rfl := hParent.unique hParent'
      exact absurd hStop (not_or.mpr ⟨hFresh, Nat.not_lt.mpr hShort⟩)
    | round hParent' _ _ hRest =>
      obtain rfl := hParent.unique hParent'
      obtain ⟨rfl, rfl⟩ := ih hRest
      exact ⟨rfl, rfl⟩

/-- The search ends by itself before the steps that it is given run out.  Steps and names together are
more than `maxChain`, and each round trades a step for a name. -/
theorem climbs_climb (current : String) (chain : List String) {steps : Nat}
    (hSteps : maxChain < steps + chain.length)
    (hShort : chain.length < maxChain) : ∃ n, n + chain.length ≤ maxChain ∧
      Climbs x name (current :: chain) n (x.climb name steps current (current :: chain)) := by
  induction steps generalizing current chain with
  | zero => omega
  | succ steps ih =>
    unfold climb
    cases hFind : x.find? current with
    | none => exact ⟨0, by omega, .outside hFind⟩
    | some e =>
      have hParent : x.Extends current e.parent := extends_iff.mpr ⟨e, hFind, rfl⟩
      dsimp only
      split
      next hStop => exact ⟨1, by omega, .stopped hParent hStop⟩
      next hGo =>
        obtain ⟨hFresh, hLength⟩ := not_or.mp hGo
        have hLonger : (current :: chain).length < maxChain := Nat.not_lt.mp hLength
        obtain ⟨n, hRounds, hRest⟩ := ih e.parent (current :: chain)
          (by simp only [List.length_cons]; omega) hLonger
        refine ⟨n + 1, ?_, .round hParent hFresh hLonger hRest⟩
        simp only [List.length_cons] at hRounds
        omega

theorem exists_climbs (x : ClassIndex) (name : String) :
    ∃ n ≤ maxChain, Climbs x name [name] n (x.topAncestor name) :=
  climbs_climb name [] (by decide) (by decide)

/-! ## What the search tells -/

/-- What holds of the chain between two rounds. -/
structure Climbed (x : ClassIndex) (name : String) (chain : List String) : Prop where
  lineage : Lineage x name chain.reverse
  nodup : chain.Nodup
  short : chain.length ≤ maxChain

/-- The result tells how the lineage of the name goes on. -/
inductive Answers (x : ClassIndex) (name : String) : Except Error String → Prop
  | found {chain : List String} {top : String} (h : Reaches x name chain top)
      (hShort : chain.length ≤ maxChain) : Answers x name (.ok top)
  | cyclic {chain : List String} (h : Lineage x name chain) (hBack : ComesBack chain) :
      Answers x name (.error (.ancestorCycle name chain))
  | tooLong {chain : List String} (h : Lineage x name chain) (hNodup : chain.Nodup)
      (hLength : chain.length = maxChain + 1) : Answers x name (.error (.ancestorCycle name chain))

theorem climbed_self (x : ClassIndex) (name : String) : Climbed x name [name] :=
  ⟨⟨rfl, .singleton name⟩, List.nodup_singleton name, by simp [maxChain]⟩

theorem Lineage.reverse_cons {current parent : String}
    (h : Lineage x name (current :: chain).reverse) (hParent : x.Extends current parent) :
    Lineage x name (parent :: current :: chain).reverse where
  starts := by
    rw [List.reverse_cons, List.head?_append_of_ne_nil _ (by simp)]
    exact h.starts
  linked := by
    rw [List.reverse_cons]
    refine h.linked.append (.singleton parent) ?_
    rintro _ hLast _ hHead
    obtain rfl : current = _ := by simpa using hLast
    obtain rfl : parent = _ := by simpa using hHead
    exact hParent

theorem Climbed.round {current parent : String} (h : Climbed x name (current :: chain))
    (hParent : x.Extends current parent) (hFresh : parent ∉ current :: chain)
    (hShort : (parent :: current :: chain).length ≤ maxChain) :
    Climbed x name (parent :: current :: chain) :=
  ⟨h.lineage.reverse_cons hParent, List.nodup_cons.mpr ⟨hFresh, h.nodup⟩, hShort⟩

theorem Climbed.answers {n : Nat} {r : Except Error String} (h : Climbed x name chain)
    (hClimbs : Climbs x name chain n r) : Answers x name r := by
  induction hClimbs with
  | @outside current chain hFind =>
    have hReaches : Reaches x name (current :: chain).reverse current :=
      { h.lineage with ends := by simp, outside := hFind }
    exact .found hReaches (by simpa using h.short)
  | @stopped current parent chain hParent hStop =>
    have hLineage := h.lineage.reverse_cons hParent
    by_cases hMem : parent ∈ current :: chain
    · refine .cyclic hLineage ⟨(current :: chain).reverse, parent, List.reverse_cons, ?_, ?_⟩
      · exact List.mem_reverse.mpr hMem
      · exact List.nodup_reverse.mpr h.nodup
    · have hLong := hStop.resolve_left hMem
      refine .tooLong hLineage (List.nodup_reverse.mpr (List.nodup_cons.mpr ⟨hMem, h.nodup⟩)) ?_
      rw [List.length_reverse]
      exact Nat.le_antisymm (Nat.succ_le_succ h.short) hLong
  | round hParent hFresh hShort _ ih => exact ih (h.round hParent hFresh hShort)

theorem answers_topAncestor (x : ClassIndex) (name : String) : Answers x name (x.topAncestor name) := by
  obtain ⟨_, _, hClimbs⟩ := exists_climbs x name
  exact (climbed_self x name).answers hClimbs

theorem exists_reaches (h : x.topAncestor name = .ok top) :
    ∃ chain, Reaches x name chain top ∧ chain.length ≤ maxChain := by
  have hAnswers := answers_topAncestor x name
  rw [h] at hAnswers
  cases hAnswers with
  | found hReaches hShort => exact ⟨_, hReaches, hShort⟩

theorem Reaches.topAncestor_eq_ok (h : Reaches x name chain top) (hShort : chain.length ≤ maxChain) :
    x.topAncestor name = .ok top := by
  have hAnswers := answers_topAncestor x name
  generalize x.topAncestor name = r at hAnswers ⊢
  cases hAnswers with
  | found hReaches => rw [(h.unique hReaches).2]
  | cyclic hLineage hBack => exact absurd h (hLineage.not_reaches hBack _ _)
  | tooLong hLineage _ hLength =>
    have hLe := (h.longest hLineage).length_le
    omega

theorem Reaches.topAncestor_eq_error (h : Reaches x name chain top) (hLong : maxChain < chain.length) :
    x.topAncestor name = .error (.ancestorCycle name (chain.take (maxChain + 1))) := by
  have hAnswers := answers_topAncestor x name
  generalize x.topAncestor name = r at hAnswers ⊢
  cases hAnswers with
  | found hReaches hShort =>
    rw [(h.unique hReaches).1] at hShort
    omega
  | cyclic hLineage hBack => exact absurd h (hLineage.not_reaches hBack _ _)
  | tooLong hLineage _ hLength => rw [← hLength, ← List.prefix_iff_eq_take.mp (h.longest hLineage)]

/-- The search ends after at most `maxChain` parents, and with one result.  A name that it finds is
outside and is reached without coming back to a class.  A chain that it reports is the lineage of the
name up to a class that it comes back to, or up to a name too many. -/
theorem topAncestor_tells (x : ClassIndex) (name : String) :
    (∃ n ≤ maxChain, ∀ m r, Climbs x name [name] m r ↔ m = n ∧ r = x.topAncestor name) ∧
    (∀ top, x.topAncestor name = .ok top →
      x.find? top = none ∧ ∃ chain, Reaches x name chain top ∧ chain.Nodup) ∧
    (∀ e, x.topAncestor name = .error e → ∃ chain, e = .ancestorCycle name chain ∧
      Lineage x name chain ∧ (ComesBack chain ∨ chain.length = maxChain + 1 ∧ chain.Nodup)) ∧
    ((∀ chain top, ¬ Reaches x name chain top) →
      ∃ chain, x.topAncestor name = .error (.ancestorCycle name chain)) := by
  have hAnswers := answers_topAncestor x name
  refine ⟨?_, ?_, ?_, ?_⟩
  · obtain ⟨n, hRounds, hClimbs⟩ := exists_climbs x name
    refine ⟨n, hRounds, fun m r => ⟨hClimbs.unique, ?_⟩⟩
    rintro ⟨rfl, rfl⟩
    exact hClimbs
  · intro top hTop
    obtain ⟨chain, hReaches, _⟩ := exists_reaches hTop
    exact ⟨hReaches.outside, chain, hReaches, hReaches.nodup⟩
  · intro e hError
    rw [hError] at hAnswers
    cases hAnswers with
    | cyclic hLineage hBack => exact ⟨_, rfl, hLineage, .inl hBack⟩
    | tooLong hLineage hNodup hLength => exact ⟨_, rfl, hLineage, .inr ⟨hLength, hNodup⟩⟩
  · intro hNone
    generalize x.topAncestor name = r at hAnswers ⊢
    cases hAnswers with
    | found hReaches => exact absurd hReaches (hNone _ _)
    | cyclic => exact ⟨_, rfl⟩
    | tooLong => exact ⟨_, rfl⟩

/-- Two classes that extend each other, a third one that extends them, and a class that extends none of
them. -/
def coil : ClassIndex :=
  ⟨OrderedMap.ofList [("X", ⟨"A", ⟨"a.php"⟩, 2⟩), ("A", ⟨"B", ⟨"a.php"⟩, 3⟩),
    ("B", ⟨"A", ⟨"b.php"⟩, 2⟩), ("D", ⟨"E", ⟨"b.php"⟩, 3⟩)]⟩

theorem topAncestor_tells_coil :
    coil.topAncestor "D" = .ok "E" ∧ (∃ chain, Reaches coil "D" chain "E" ∧ chain.Nodup) ∧
    (∀ chain top, ¬ Reaches coil "X" chain top) ∧
    ∃ chain, coil.topAncestor "X" = .error (.ancestorCycle "X" chain) ∧ Lineage coil "X" chain ∧
      (ComesBack chain ∨ chain.length = maxChain + 1 ∧ chain.Nodup) := by
  have hTop : coil.topAncestor "D" = .ok "E" := by decide +kernel
  have hLineage : Lineage coil "X" ["X", "A", "B", "A"] := ⟨rfl, by decide +kernel⟩
  have hBack : ComesBack ["X", "A", "B", "A"] := ⟨["X", "A", "B"], "A", rfl, by decide, by decide⟩
  have hNone := hLineage.not_reaches hBack
  obtain ⟨_, hFound, _, _⟩ := topAncestor_tells coil "D"
  obtain ⟨_, _, hReported, hNever⟩ := topAncestor_tells coil "X"
  obtain ⟨chain, hError⟩ := hNever hNone
  obtain ⟨chain', hSame, hTold, hKind⟩ := hReported _ hError
  obtain rfl := (Error.ancestorCycle.inj hSame).2
  exact ⟨hTop, (hFound _ hTop).2, hNone, chain, hError, hTold, hKind⟩

/-! ## How long a lineage can be -/

/-- From a lineage that leaves the index after so many parents the name outside is found exactly if these
are fewer than `maxChain`.  Otherwise the first names of the lineage are reported, one too many. -/
theorem topAncestor_of_reaches {hops : Nat} (h : Reaches x name chain top)
    (hHops : chain.length = hops + 1) :
    (x.topAncestor name = .ok top ↔ hops < maxChain) ∧
    (maxChain ≤ hops →
      x.topAncestor name = .error (.ancestorCycle name (chain.take (maxChain + 1)))) := by
  refine ⟨⟨?_, ?_⟩, ?_⟩
  · intro hTop
    obtain ⟨_, hReaches, hShort⟩ := exists_reaches hTop
    rw [(h.unique hReaches).1] at hShort
    omega
  · intro hFew
    exact h.topAncestor_eq_ok (by omega)
  · intro hMany
    exact h.topAncestor_eq_error (by omega)

def rung (n : Nat) : String :=
  String.ofList ('C' :: Nat.toDigits 10 n)

theorem rung_injective : Function.Injective rung := by
  intro m n h
  have hDigits := (List.cons.inj (String.ofList_inj.mp h)).2
  calc
    m = Nat.ofDigitChars 10 (Nat.toDigits 10 m) 0 := Nat.ofDigitChars_ten_toDigits.symm
    _ = Nat.ofDigitChars 10 (Nat.toDigits 10 n) 0 := by rw [hDigits]
    _ = n := Nat.ofDigitChars_ten_toDigits

def rungs (height : Nat) : List String :=
  (List.range (height + 1)).map rung

/-- Every class of a ladder extends the next one, and the last one a name outside. -/
def ladder (height : Nat) : ClassIndex where
  entries.entries := (List.range height).map fun n => (rung n, ⟨rung (n + 1), ⟨"deep.php"⟩, n + 1⟩)
  entries.nodup := by
    rw [List.map_map]
    exact List.nodup_range.map rung_injective

theorem extends_ladder {height n : Nat} (h : n < height) :
    (ladder height).Extends (rung n) (rung (n + 1)) := by
  have hMem : (rung n, (⟨rung (n + 1), ⟨"deep.php"⟩, n + 1⟩ : ClassEntry)) ∈
      (ladder height).entries.entries := List.mem_map.mpr ⟨n, List.mem_range.mpr h, rfl⟩
  exact extends_iff.mpr ⟨_, OrderedMap.find?_eq_some_of_mem hMem, rfl⟩

theorem find?_ladder (height : Nat) : (ladder height).find? (rung height) = none := by
  rw [← Option.not_isSome_iff_eq_none]
  intro hSome
  have hKey : rung height ∈ (ladder height).entries.keys := OrderedMap.isSome_find?_iff.mp hSome
  rw [OrderedMap.keys, ladder, List.map_map] at hKey
  obtain ⟨n, hn, hSame⟩ := List.mem_map.mp hKey
  obtain rfl : n = height := rung_injective hSame
  exact absurd (List.mem_range.mp hn) (Nat.lt_irrefl n)

theorem reaches_ladder (height : Nat) :
    Reaches (ladder height) (rung 0) (rungs height) (rung height) where
  starts := by simp [rungs, List.range_succ_eq_map]
  linked := by
    rw [rungs, List.isChain_map, List.isChain_range_succ]
    exact fun _ h => extends_ladder h
  ends := by simp [rungs, List.range_succ]
  outside := find?_ladder height

theorem length_rungs (height : Nat) : (rungs height).length = height + 1 := by
  simp [rungs]

theorem topAncestor_of_reaches_ladder :
    Reaches (ladder 63) (rung 0) (rungs 63) (rung 63) ∧ (rungs 63).length = 63 + 1 ∧
    (ladder 63).topAncestor (rung 0) = .ok (rung 63) ∧
    (ladder 100).topAncestor (rung 0) = .error (.ancestorCycle (rung 0) (rungs 64)) := by
  have hShort := topAncestor_of_reaches (reaches_ladder 63) (length_rungs 63)
  have hLong := topAncestor_of_reaches (reaches_ladder 100) (length_rungs 100)
  refine ⟨reaches_ladder 63, length_rungs 63, hShort.1.mpr (by decide), ?_⟩
  rw [hLong.2 (by decide)]
  rfl

/-- A lineage that comes back to no class and leaves the index after exactly `maxChain` parents is reported
as an error. -/
theorem topAncestor_ladder :
    Reaches (ladder maxChain) (rung 0) (rungs maxChain) (rung maxChain) ∧ (rungs maxChain).Nodup ∧
    (rungs maxChain).length = maxChain + 1 ∧
    (ladder maxChain).topAncestor (rung 0) = .error (.ancestorCycle (rung 0) (rungs maxChain)) := by
  have hReaches := reaches_ladder maxChain
  have hLength := length_rungs maxChain
  refine ⟨hReaches, hReaches.nodup, hLength, ?_⟩
  rw [hReaches.topAncestor_eq_error (by omega), ← hLength, List.take_length]

end ClassIndex

end DocWiring
