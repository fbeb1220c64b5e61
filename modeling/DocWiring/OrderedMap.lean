/-! # Maps in the order of their keys' arrival

An ordered map holds each key once.  A new key goes to the end; a key that is already there keeps
its place and takes the new value.
-/

namespace DocWiring

/-- A map that remembers the order in which its keys arrived. -/
structure OrderedMap (α β : Type) where
  entries : List (α × β)
  nodup : (entries.map Prod.fst).Nodup

namespace OrderedMap

variable {α β : Type}

theorem ext {m n : OrderedMap α β} (h : m.entries = n.entries) : m = n := by
  cases m
  cases n
  cases h
  rfl

instance [DecidableEq α] [DecidableEq β] : DecidableEq (OrderedMap α β) := fun m n =>
  if h : m.entries = n.entries then isTrue (ext h)
  else isFalse fun same => h (same ▸ rfl)

def empty : OrderedMap α β where
  entries := []
  nodup := List.nodup_nil

instance : Inhabited (OrderedMap α β) := ⟨empty⟩

instance [Repr α] [Repr β] : Repr (OrderedMap α β) where
  reprPrec m n := reprPrec m.entries n

/-- The keys in order. -/
def keys (m : OrderedMap α β) : List α :=
  m.entries.map Prod.fst

def size (m : OrderedMap α β) : Nat :=
  m.entries.length

def isEmpty (m : OrderedMap α β) : Bool :=
  m.entries.isEmpty

variable [DecidableEq α]

def find? (m : OrderedMap α β) (a : α) : Option β :=
  (m.entries.find? fun e => e.1 = a).map Prod.snd

/-- Sets the value of a key in a list of entries, at the key's place or else at the end. -/
def setEntry (a : α) (b : β) : List (α × β) → List (α × β)
  | [] => [(a, b)]
  | e :: es => if e.1 = a then (a, b) :: es else e :: setEntry a b es

theorem map_fst_setEntry (a : α) (b : β) (es : List (α × β)) :
    (setEntry a b es).map Prod.fst =
      if a ∈ es.map Prod.fst then es.map Prod.fst else es.map Prod.fst ++ [a] := by
  induction es with
  | nil => simp [setEntry]
  | cons e es ih =>
    by_cases h : e.1 = a
    · simp [setEntry, h]
    · have h' : ¬ a = e.1 := fun x => h x.symm
      by_cases hm : a ∈ es.map Prod.fst <;> simp_all [setEntry]

theorem nodup_setEntry {a : α} {b : β} {es : List (α × β)} (h : (es.map Prod.fst).Nodup) :
    ((setEntry a b es).map Prod.fst).Nodup := by
  rw [map_fst_setEntry]
  split
  · exact h
  next hm =>
    rw [List.nodup_append]
    refine ⟨h, by simp, ?_⟩
    intro x hx y hy
    obtain rfl : y = a := by simpa using hy
    exact fun same => hm (same ▸ hx)

/-- Sets the value of a key, which keeps its place if it has one and goes to the end if not. -/
def insert (m : OrderedMap α β) (a : α) (b : β) : OrderedMap α β where
  entries := setEntry a b m.entries
  nodup := nodup_setEntry m.nodup

def contains (m : OrderedMap α β) (a : α) : Bool :=
  (m.find? a).isSome

/-- The map made by inserting entries from first to last. -/
def ofList (es : List (α × β)) : OrderedMap α β :=
  es.foldl (fun m e => m.insert e.1 e.2) empty

theorem find?_empty (a : α) : (empty : OrderedMap α β).find? a = none := rfl

theorem find?_insert (m : OrderedMap α β) (a : α) (b : β) (x : α) :
    (m.insert a b).find? x = if a = x then some b else m.find? x := by
  unfold find? insert
  simp only
  generalize m.entries = es
  induction es with
  | nil => by_cases h : a = x <;> simp [setEntry, h]
  | cons e es ih =>
    by_cases he : e.1 = a
    · by_cases h : a = x <;> simp [setEntry, he, h]
    · by_cases hx : e.1 = x
      · have h : ¬ x = a := fun same => he (hx.trans same)
        have h' : ¬ a = x := fun same => h same.symm
        simp [setEntry, hx, h, h']
      · simpa [setEntry, he, hx] using ih

end OrderedMap

end DocWiring
