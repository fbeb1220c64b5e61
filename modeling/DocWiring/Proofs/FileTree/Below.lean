import DocWiring.Discovery
import DocWiring.Proofs.FileTree
import DocWiring.Proofs.Text.Pieces

/-! # The files below a folder

In a regular tree every name can be a part of a path, and nothing lies below a file.  The names that lead
from a folder to a file below it, put behind a path to the folder, are a path to the file.
-/

namespace DocWiring.FileTree

variable {α : Type} {t : FileTree α} {folder place : Location} {names : List String} {c : α}

/-- The name can be given to a file or to a folder. -/
def IsName (name : String) : Prop :=
  name ≠ "" ∧ name ≠ "." ∧ name ≠ ".." ∧ '/' ∉ name.toList

instance (name : String) : Decidable (IsName name) :=
  inferInstanceAs (Decidable (_ ∧ _))

/-- Files have names, and nothing lies below them. -/
structure Regular (t : FileTree α) : Prop where
  named : ∀ place ∈ t.files.keys, ∀ name ∈ place, IsName name
  leaves : ∀ place ∈ t.files.keys, ∀ other ∈ t.files.keys, place <+: other → place = other

theorem mem_keys_iff : place ∈ t.files.keys ↔ ∃ c, t.find? place = some (.file c) := by
  simp only [find?_eq_file_iff, ← OrderedMap.isSome_find?_iff, Option.isSome_iff_exists]

/-! ## The order of a walk -/

theorem before_iff {a b : Location} : before a b = true ↔ a < b ∨ a = b := by
  induction a generalizing b with
  | nil =>
    cases b with
    | nil => simp [before]
    | cons y b => simp [before]
  | cons x a ih =>
    cases b with
    | nil => simp [before]
    | cons y b =>
      rw [before, Bool.or_eq_true, decide_eq_true_eq, Bool.and_eq_true, beq_iff_eq, ih,
        List.cons_lt_cons_iff, List.cons.injEq]
      tauto

theorem pairwise_below (t : FileTree α) (folder : Location) : (t.below folder).Pairwise (· < ·) := by
  have hSorted : (t.below folder).Pairwise fun a b => before a b = true := by
    apply pairwise_sortBy
    · intro a b c hab hbc
      rw [before_iff] at hab hbc ⊢
      rcases hab with hab | rfl
      · rcases hbc with hbc | rfl
        · exact .inl (List.lt_trans hab hbc)
        · exact .inl hab
      · exact hbc
    · intro a b
      rw [before_iff, before_iff]
      rcases Std.lt_trichotomy a b with h | h | h
      · exact .inl (.inl h)
      · exact .inl (.inr h)
      · exact .inr (.inl h)
  have hNodup : (t.below folder).Nodup := by
    rw [below, (sortBy_perm _ _).nodup_iff]
    apply List.Nodup.map_on
    · intro a ha b hb hSame
      simp only [List.mem_filter, Bool.and_eq_true, List.isPrefixOf_iff_prefix] at ha hb
      obtain ⟨⟨_, ⟨a, rfl⟩, _⟩, ⟨_, ⟨b, rfl⟩, _⟩⟩ := And.intro ha hb
      rw [List.drop_left, List.drop_left] at hSame
      rw [hSame]
    · exact t.files.nodup.filter _
  exact hSorted.imp₂ (fun _ _ hBefore hNe => (before_iff.mp hBefore).resolve_right hNe) hNodup

theorem mem_below_iff : names ∈ t.below folder ↔
    names ≠ [] ∧ ∃ c, t.find? (folder ++ names) = some (.file c) := by
  rw [← mem_keys_iff, below, (sortBy_perm _ _).mem_iff, List.mem_map]
  simp only [List.mem_filter, Bool.and_eq_true, List.isPrefixOf_iff_prefix, bne_iff_ne]
  constructor
  · rintro ⟨_, ⟨hKey, ⟨rest, rfl⟩, hNe⟩, rfl⟩
    rw [List.drop_left]
    exact ⟨by simpa using hNe.symm, hKey⟩
  · rintro ⟨hNe, hKey⟩
    exact ⟨folder ++ names, ⟨hKey, List.prefix_append _ _, by simpa using hNe⟩, List.drop_left⟩

/-! ## Paths to the files below a folder -/

/-- All that lies above a file is a folder. -/
theorem Regular.find?_of_prefix (h : t.Regular) {file : Location} (hFile : file ∈ t.files.keys)
    (hAbove : place <+: file) (hNe : place ≠ file) : t.find? place = some .folder := by
  refine find?_eq_folder_iff.mpr ⟨?_, ?_⟩
  · rw [← Option.not_isSome_iff_eq_none, OrderedMap.isSome_find?_iff]
    exact fun hKey => hNe (h.leaves place hKey file hFile hAbove)
  · have hBelow : (t.files.keys.any fun f => place.isPrefixOf f && f != place) = true :=
      List.any_eq_true.mpr ⟨file, hFile, by simp [hAbove, hNe.symm]⟩
    rw [isFolder, hBelow, Bool.or_true]

theorem Regular.walk_names (h : t.Regular) (hFile : folder ++ names ∈ t.files.keys) :
    t.walk folder names = .ok (folder ++ names) := by
  induction names generalizing folder with
  | nil => rw [List.append_nil, walk]
  | cons name names ih =>
    have hName : IsName name := h.named _ hFile name (by simp)
    have hFolder : t.find? folder = some .folder :=
      h.find?_of_prefix hFile (List.prefix_append _ _) (by simp)
    have hStep : t.step folder name = .ok (folder ++ [name]) := by
      rw [step, hFolder]
      simp [hName.1, hName.2.1, hName.2.2.1]
    have hRest : t.walk (folder ++ [name]) names = .ok (folder ++ [name] ++ names) :=
      ih (by simpa using hFile)
    rw [List.append_assoc, List.singleton_append] at hRest
    rw [walk, hStep]
    exact hRest

theorem piecesOf_append_cons (a b : String) :
    piecesOf ⟨a ++ "/" ++ b⟩ = piecesOf ⟨a⟩ ++ piecesOf ⟨b⟩ := by
  have hText : (a ++ "/" ++ b).toList = a.toList ++ '/' :: b.toList := by simp
  simp only [piecesOf, hText, Text.pieces_append_cons, List.map_append]

theorem piecesOf_relativeText (hNil : names ≠ []) (hNames : ∀ name ∈ names, IsName name) :
    piecesOf ⟨Discovery.relativeText names⟩ = names := by
  have hText : (Discovery.relativeText names).toList = ['/'].intercalate (names.map String.toList) := by
    rw [Discovery.relativeText, String.toList_intercalate]
    rfl
  have hFree : ∀ p ∈ names.map String.toList, '/' ∉ p := by
    intro p hp
    obtain ⟨name, hName, rfl⟩ := List.mem_map.mp hp
    exact (hNames name hName).2.2.2
  rw [piecesOf, hText, Text.pieces_intercalate (by simpa using hNil) hFree, List.map_map]
  exact List.map_id'' (fun _ => String.ofList_toList) names

theorem eq_of_step_empty {next : Location} (h : t.step place "" = .ok next) : next = place := by
  rw [step, find?_of_step h] at h
  simpa using h.symm

/-- A path to a folder leads there without the slash at its end, too. -/
theorem walk_of_slash {front : List String} {start : Location}
    (h : t.walk start (front ++ [""]) = .ok folder) : t.walk start front = .ok folder := by
  rw [walk_append] at h
  cases hFront : t.walk start front with
  | error e =>
    rw [hFront] at h
    cases h
  | ok next =>
    rw [hFront] at h
    change t.walk next [""] = .ok folder at h
    rw [walk] at h
    cases hStep : t.step next "" with
    | error e =>
      rw [hStep] at h
      cases h
    | ok last =>
      rw [hStep] at h
      rw [← eq_of_step_empty hStep]
      exact h

/-- The pieces of a path to a file below a folder lead to the folder first. -/
theorem exists_piecesOf_join {source : Path} {start : Location}
    (hWalk : t.walk start (piecesOf source) = .ok folder) (hNil : names ≠ [])
    (hNames : ∀ name ∈ names, IsName name) : ∃ front, t.walk start front = .ok folder ∧
      piecesOf (source.join (Discovery.relativeText names)) = front ++ names := by
  have hRelative := piecesOf_relativeText hNil hNames
  unfold Path.join
  split
  next hSlash =>
    obtain ⟨s, hText⟩ := List.getLast?_eq_some_iff.mp hSlash
    obtain ⟨text⟩ := source
    obtain rfl : text = String.ofList s ++ "/" := by
      apply String.toList_injective
      rw [hText]
      simp
    refine ⟨piecesOf ⟨String.ofList s⟩, ?_, ?_⟩
    · have hEnd := piecesOf_append_cons (String.ofList s) ""
      rw [String.append_empty] at hEnd
      rw [hEnd] at hWalk
      exact walk_of_slash hWalk
    · rw [piecesOf_append_cons, hRelative]
  next =>
    refine ⟨piecesOf source, hWalk, ?_⟩
    rw [piecesOf_append_cons, hRelative]

theorem startOf_join {source : Path} (hText : source.text ≠ "") (entry : String) :
    t.startOf (source.join entry) = t.startOf source := by
  have hNil : source.text.toList ≠ [] := by simpa using hText
  have hHead (more : List Char) : (source.text.toList ++ more).head? = source.text.toList.head? :=
    List.head?_append_of_ne_nil _ hNil
  unfold startOf Path.join
  split <;> simp only [String.toList_append, List.append_assoc, hHead]

theorem Regular.locate_join (h : t.Regular) {source : Path} (hSource : t.locate source = .ok folder)
    (hNil : names ≠ []) (hFile : folder ++ names ∈ t.files.keys) :
    t.locate (source.join (Discovery.relativeText names)) = .ok (folder ++ names) := by
  have hNames : ∀ name ∈ names, IsName name :=
    fun name hName => h.named _ hFile name (List.mem_append_right _ hName)
  rw [locate] at hSource
  split at hSource
  next => cases hSource
  next hText =>
    obtain ⟨front, hFront, hPieces⟩ := exists_piecesOf_join hSource hNil hNames
    have hJoined : (source.join (Discovery.relativeText names)).text ≠ "" := by
      unfold Path.join
      split <;> simp [hText]
    rw [locate, if_neg hJoined, startOf_join hText, hPieces, walk_append, hFront]
    exact h.walk_names hFile

end DocWiring.FileTree
