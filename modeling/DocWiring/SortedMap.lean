/-! # Maps in the order of their keys

A sorted map holds each name once, in ascending order of code points.  Setting a name that is
there already replaces its value.
-/

namespace DocWiring

/-- A map from names, kept in ascending order. -/
structure SortedMap (β : Type) where
  entries : List (String × β)
  sorted : (entries.map Prod.fst).Pairwise (· < ·)

namespace SortedMap

variable {β : Type}

theorem ext {m n : SortedMap β} (h : m.entries = n.entries) : m = n := by
  cases m
  cases n
  cases h
  rfl

instance [DecidableEq β] : DecidableEq (SortedMap β) := fun m n =>
  if h : m.entries = n.entries then isTrue (ext h)
  else isFalse fun same => h (same ▸ rfl)

instance [Repr β] : Repr (SortedMap β) where
  reprPrec m n := reprPrec m.entries n

def empty : SortedMap β where
  entries := []
  sorted := List.Pairwise.nil

instance : Inhabited (SortedMap β) := ⟨empty⟩

def keys (m : SortedMap β) : List String :=
  m.entries.map Prod.fst

def isEmpty (m : SortedMap β) : Bool :=
  m.entries.isEmpty

def find? (m : SortedMap β) (k : String) : Option β :=
  (m.entries.find? fun e => e.1 = k).map Prod.snd

def contains (m : SortedMap β) (k : String) : Bool :=
  m.keys.contains k

/-- Sets the value of a name in an ascending list of entries. -/
def setEntry (k : String) (v : β) : List (String × β) → List (String × β)
  | [] => [(k, v)]
  | e :: es =>
    if k < e.1 then (k, v) :: e :: es
    else if k = e.1 then (k, v) :: es
    else e :: setEntry k v es

theorem mem_map_fst_setEntry {k x : String} {v : β} {es : List (String × β)} :
    x ∈ (setEntry k v es).map Prod.fst ↔ x = k ∨ x ∈ es.map Prod.fst := by
  induction es with
  | nil => simp [setEntry]
  | cons e es ih =>
    unfold setEntry
    split
    · simp
    · split
      next same => simp [same]
      next =>
        rw [List.map_cons, List.mem_cons, ih, List.map_cons, List.mem_cons]
        exact or_left_comm

theorem lt_of_not_lt_of_ne {a b : String} (notLt : ¬ a < b) (ne : ¬ a = b) : b < a := by
  have le : b ≤ a := String.not_lt.mp notLt
  exact Decidable.byContradiction fun notGt => ne (String.le_antisymm (String.not_lt.mp notGt) le)

theorem sorted_setEntry {k : String} {v : β} {es : List (String × β)}
    (h : (es.map Prod.fst).Pairwise (· < ·)) :
    ((setEntry k v es).map Prod.fst).Pairwise (· < ·) := by
  induction es with
  | nil => simp [setEntry]
  | cons e es ih =>
    rw [List.map_cons, List.pairwise_cons] at h
    unfold setEntry
    split
    next lt =>
      rw [List.map_cons, List.pairwise_cons]
      refine ⟨?_, by rw [List.map_cons, List.pairwise_cons]; exact h⟩
      intro x hx
      rw [List.map_cons, List.mem_cons] at hx
      rcases hx with rfl | hx
      · exact lt
      · exact String.lt_trans lt (h.1 x hx)
    next notLt =>
      split
      next same =>
        rw [List.map_cons, List.pairwise_cons]
        exact ⟨fun x hx => same ▸ h.1 x hx, h.2⟩
      next ne =>
        rw [List.map_cons, List.pairwise_cons]
        refine ⟨?_, ih h.2⟩
        intro x hx
        rcases mem_map_fst_setEntry.mp hx with rfl | hx
        · exact lt_of_not_lt_of_ne notLt ne
        · exact h.1 x hx

def insert (m : SortedMap β) (k : String) (v : β) : SortedMap β where
  entries := setEntry k v m.entries
  sorted := sorted_setEntry m.sorted

/-- The map made by setting entries from first to last. -/
def ofList (es : List (String × β)) : SortedMap β :=
  es.foldl (fun m e => m.insert e.1 e.2) empty

end SortedMap

/-- A set of names in ascending order. -/
abbrev NameSet := SortedMap Unit

def NameSet.ofNames (names : List String) : NameSet :=
  SortedMap.ofList (names.map fun n => (n, ()))

end DocWiring
