import DocWiring.OrderedMap
import DocWiring.SortedMap
import Mathlib.Data.List.Nodup

/-! # What maps hold

A map holds the entries that it finds.  An ordered map is given by the order of its keys and by what it
finds for each of them, a sorted map by what it finds alone.
-/

namespace DocWiring

theorem find?_key_eq_some_iff {α β : Type} [DecidableEq α] {es : List (α × β)} {a : α} {b : β}
    (hNodup : (es.map Prod.fst).Nodup) :
    (es.find? fun e => e.1 = a).map Prod.snd = some b ↔ (a, b) ∈ es := by
  induction es with
  | nil => simp
  | cons e es ih =>
    rw [List.map_cons, List.nodup_cons] at hNodup
    by_cases hSame : e.1 = a
    · have hLater : (a, b) ∉ es := fun hMem =>
        hNodup.1 (hSame ▸ List.mem_map_of_mem (f := Prod.fst) hMem)
      rw [List.find?_cons_of_pos (by simpa using hSame), List.mem_cons, or_iff_left hLater]
      obtain ⟨k, v⟩ := e
      simp_all [eq_comm]
    · have hHead : (a, b) ≠ e := fun h => hSame (congrArg Prod.fst h.symm)
      rw [List.find?_cons_of_neg (by simpa using hSame), List.mem_cons, or_iff_right hHead]
      exact ih hNodup.2

theorem sublist_map_filterMap {α β γ : Type} {f : α → Option β} {g : β → γ} {h : α → γ} {l : List α}
    (hSame : ∀ a ∈ l, ∀ b, f a = some b → g b = h a) : ((l.filterMap f).map g).Sublist (l.map h) := by
  induction l with
  | nil => exact .slnil
  | cons a l ih =>
    obtain ⟨hHead, hTail⟩ := List.forall_mem_cons.mp hSame
    cases hSome : f a with
    | none =>
      rw [List.filterMap_cons_none hSome]
      exact (ih hTail).cons _
    | some b =>
      rw [List.filterMap_cons_some hSome, List.map_cons, List.map_cons, hHead b hSome]
      exact (ih hTail).cons_cons _

/-- What is in ascending order is given by its members. -/
theorem eq_of_ascending {α : Type} {key : α → String} {as bs : List α}
    (has : as.Pairwise fun a b => key a < key b) (hbs : bs.Pairwise fun a b => key a < key b)
    (hMem : ∀ a, a ∈ as ↔ a ∈ bs) : as = bs := by
  have hNodup {l : List α} (hl : l.Pairwise fun a b => key a < key b) : l.Nodup := by
    refine hl.imp ?_
    rintro a _ hLess rfl
    exact String.lt_irrefl _ hLess
  have hPerm : as.Perm bs := (List.perm_ext_iff_of_nodup (hNodup has) (hNodup hbs)).mpr hMem
  refine hPerm.eq_of_pairwise ?_ has hbs
  intro a b _ _ hLess hMore
  exact absurd hMore (String.lt_asymm hLess)

namespace OrderedMap

variable {α β : Type} [DecidableEq α] {m n : OrderedMap α β} {a : α} {b : β}

theorem mem_of_find?_eq_some (h : m.find? a = some b) : (a, b) ∈ m.entries :=
  (find?_key_eq_some_iff m.nodup).mp h

theorem isSome_find?_iff : (m.find? a).isSome = true ↔ a ∈ m.keys := by
  rw [find?, Option.isSome_map, List.find?_isSome, keys, List.mem_map]
  simp

theorem find?_eq_some_of_mem (h : (a, b) ∈ m.entries) : m.find? a = some b :=
  (find?_key_eq_some_iff m.nodup).mpr h

theorem entries_eq_filterMap (m : OrderedMap α β) :
    m.entries = m.keys.filterMap fun a => (m.find? a).map fun b => (a, b) := by
  have hSelf : ∀ e ∈ m.entries, (m.find? e.1).map (fun b => (e.1, b)) = some e := by
    intro e he
    rw [find?_eq_some_of_mem he]
    rfl
  rw [keys, List.filterMap_map]
  exact (List.filterMap_congr hSelf |>.trans List.filterMap_some).symm

theorem eq_of_find?_eq (hKeys : m.keys = n.keys) (h : ∀ a, m.find? a = n.find? a) : m = n := by
  apply ext
  rw [m.entries_eq_filterMap, n.entries_eq_filterMap, hKeys]
  simp only [h]

theorem setEntry_of_notMem {es : List (α × β)} (h : a ∉ es.map Prod.fst) :
    setEntry a b es = es ++ [(a, b)] := by
  induction es with
  | nil => rfl
  | cons e es ih =>
    rw [List.map_cons, List.mem_cons, not_or] at h
    rw [setEntry, if_neg fun hSame => h.1 hSame.symm, ih h.2, List.cons_append]

theorem entries_foldl_insert {es : List (α × β)} (h : ((m.entries ++ es).map Prod.fst).Nodup) :
    (es.foldl (fun m e => m.insert e.1 e.2) m).entries = m.entries ++ es := by
  induction es generalizing m with
  | nil => exact (List.append_nil _).symm
  | cons e es ih =>
    rw [List.append_cons] at h
    have hNew : e.1 ∉ m.entries.map Prod.fst := by
      rw [List.map_append, List.map_append, List.nodup_append, List.nodup_append] at h
      exact fun hOld => h.1.2.2 _ hOld _ (List.mem_singleton_self _) rfl
    have hInsert : (m.insert e.1 e.2).entries = m.entries ++ [e] := setEntry_of_notMem hNew
    rw [List.foldl_cons, ih (hInsert ▸ h), hInsert, List.append_assoc, List.singleton_append]

theorem entries_ofList {es : List (α × β)} (h : (es.map Prod.fst).Nodup) : (ofList es).entries = es :=
  entries_foldl_insert (m := empty) h

/-- A map is made again from its entries. -/
theorem ofList_entries (m : OrderedMap α β) : ofList m.entries = m :=
  ext (entries_ofList m.nodup)

end OrderedMap

namespace SortedMap

variable {β : Type} {m n : SortedMap β} {es : List (String × β)} {k x : String} {v : β}

theorem mem_keys_ofList : k ∈ (ofList es).keys ↔ k ∈ es.map Prod.fst := by
  have hFold (m : SortedMap β) : k ∈ (es.foldl (fun m e => m.insert e.1 e.2) m).keys ↔
      k ∈ m.keys ∨ k ∈ es.map Prod.fst := by
    induction es generalizing m with
    | nil => simp
    | cons e es ih =>
      have hInsert : k ∈ (m.insert e.1 e.2).keys ↔ k = e.1 ∨ k ∈ m.keys := mem_map_fst_setEntry
      rw [List.foldl_cons, ih, hInsert, List.map_cons, List.mem_cons, or_comm (a := k = e.1), or_assoc]
  rw [ofList, hFold]
  simp [empty, keys]

theorem nodup_keys (m : SortedMap β) : (m.entries.map Prod.fst).Nodup := by
  refine m.sorted.imp ?_
  rintro a _ hLess rfl
  exact String.lt_irrefl a hLess

theorem find?_eq_some_iff : m.find? k = some v ↔ (k, v) ∈ m.entries :=
  find?_key_eq_some_iff m.nodup_keys

theorem find?_insert : (m.insert k v).find? x = if k = x then some v else m.find? x := by
  unfold find? insert
  dsimp only
  generalize m.entries = es
  induction es with
  | nil => by_cases hHere : k = x <;> simp [setEntry, hHere]
  | cons e es ih =>
    unfold setEntry
    split
    next => by_cases hHere : k = x <;> simp [hHere]
    next =>
      split
      next hSame => by_cases hHere : k = x <;> simp [hHere, ← hSame]
      next hOther =>
        by_cases hFirst : e.1 = x
        · have hNot : ¬ k = x := fun hHere => hOther (hHere.trans hFirst.symm)
          simp [hFirst, hNot]
        · simpa [hFirst] using ih

/-- Of two entries for one key the later one is found. -/
theorem find?_ofList_cons {e : String × β} :
    (ofList (e :: es)).find? x = ((ofList es).find? x).or (if e.1 = x then some e.2 else none) := by
  have hFold (m : SortedMap β) : (es.foldl (fun m e => m.insert e.1 e.2) m).find? x =
      ((ofList es).find? x).or (m.find? x) := by
    unfold ofList
    induction es generalizing m with
    | nil => rfl
    | cons e es ih =>
      rw [List.foldl_cons, ih, List.foldl_cons, ih (empty.insert e.1 e.2), Option.or_assoc,
        find?_insert, find?_insert]
      by_cases hHere : e.1 = x <;> simp [hHere, find?, empty]
  have hEmpty : (empty.insert e.1 e.2).find? x = if e.1 = x then some e.2 else none := find?_insert
  rw [← hEmpty, ← hFold]
  rfl

theorem eq_of_find?_eq (h : ∀ k, m.find? k = n.find? k) : m = n := by
  apply ext
  refine eq_of_ascending (List.pairwise_map.mp m.sorted) (List.pairwise_map.mp n.sorted) ?_
  rintro ⟨k, v⟩
  rw [← find?_eq_some_iff, ← find?_eq_some_iff, h]

end SortedMap

theorem NameSet.contains_ofNames {names : List String} {n : String} :
    (NameSet.ofNames names).contains n = true ↔ n ∈ names := by
  rw [SortedMap.contains, List.contains_iff_mem, NameSet.ofNames, SortedMap.mem_keys_ofList]
  simp

end DocWiring
