import DocWiring.Disk
import DocWiring.FileTree
import DocWiring.Proofs.Maps
import DocWiring.Proofs.Text.Search
import Mathlib.Data.List.Pairwise

/-! # Writing to a file of a tree

When a file gets another content, every path leads where it led before, and all other files stay as
they are.
-/

namespace DocWiring.FileTree

variable {α : Type} {t u : FileTree α} {place other : Location} {c d : α} {p : Path}

theorem find?_eq_file_iff : t.find? place = some (.file c) ↔ t.files.find? place = some c := by
  unfold find?
  split
  next hSome => simp [hSome]
  next hNone => split <;> simp [hNone]

theorem keys_put (h : t.find? place = some (.file c)) (d : α) :
    (t.put place d).files.keys = t.files.keys := by
  have hMem : place ∈ t.files.entries.map Prod.fst := by
    apply OrderedMap.isSome_find?_iff.mp
    rw [find?_eq_file_iff.mp h]
    rfl
  have hKeys := OrderedMap.map_fst_setEntry place d t.files.entries
  rw [if_pos hMem] at hKeys
  exact hKeys

theorem find?_put_self : (t.put place d).find? place = some (.file d) := by
  rw [find?_eq_file_iff, put, OrderedMap.find?_insert, if_pos rfl]

theorem find?_put_of_ne (h : t.find? place = some (.file c)) (hOther : place ≠ other) :
    (t.put place d).find? other = t.find? other := by
  have hFiles : (t.put place d).files.find? other = t.files.find? other := by
    rw [put, OrderedMap.find?_insert, if_neg hOther]
  have hFolder : (t.put place d).isFolder other = t.isFolder other := by
    rw [isFolder, isFolder, keys_put h]
    rfl
  rw [find?, find?, hFiles, hFolder]

def Entry.isFile : Entry α → Bool
  | .file _ => true
  | .folder => false

theorem entries_congr {β : Type} {v : FileTree β} (hFolders : v.folders = t.folders)
    (hKeys : v.files.keys = t.files.keys) (place : Location) :
    (v.find? place).map Entry.isFile = (t.find? place).map Entry.isFile := by
  have hFolder : v.isFolder place = t.isFolder place := by rw [isFolder, isFolder, hFolders, hKeys]
  have hSome : (v.files.find? place).isSome = (t.files.find? place).isSome := by
    rw [Bool.eq_iff_iff, OrderedMap.isSome_find?_iff, OrderedMap.isSome_find?_iff, hKeys]
  rw [find?, find?, hFolder]
  cases hOld : t.files.find? place with
  | none =>
    rw [hOld] at hSome
    rw [Option.isSome_eq_false_iff.mp hSome |> Option.isNone_iff_eq_none.mp]
    cases t.isFolder place <;> rfl
  | some c =>
    rw [hOld] at hSome
    obtain ⟨d, hNew⟩ := Option.isSome_iff_exists.mp hSome
    rw [hNew]
    rfl

theorem step_congr {β : Type} {v : FileTree β}
    (h : (v.find? place).map Entry.isFile = (t.find? place).map Entry.isFile) (piece : String) :
    v.step place piece = t.step place piece := by
  unfold step
  cases hOld : t.find? place with
  | none =>
    rw [hOld] at h
    rw [Option.map_eq_none_iff.mp h]
  | some e =>
    rw [hOld] at h
    obtain ⟨e', he', hSame⟩ := Option.map_eq_some_iff.mp h
    rw [he']
    cases e <;> cases e' <;> first | rfl | cases hSame

theorem walk_congr {β : Type} {v : FileTree β}
    (h : ∀ place, (v.find? place).map Entry.isFile = (t.find? place).map Entry.isFile)
    (place : Location) (pieces : List String) : v.walk place pieces = t.walk place pieces := by
  induction pieces generalizing place with
  | nil => rfl
  | cons piece rest ih =>
    rw [walk, walk, step_congr (h place)]
    congr 1
    funext next
    exact ih next

theorem locate_congr {β : Type} {v : FileTree β} (hHere : v.here = t.here)
    (h : ∀ place, (v.find? place).map Entry.isFile = (t.find? place).map Entry.isFile) (p : Path) :
    v.locate p = t.locate p := by
  unfold locate startOf
  rw [hHere, walk_congr h]

/-- Files and folders lie at the same places. -/
structure SameShape (t u : FileTree α) : Prop where
  here : u.here = t.here
  folders : u.folders = t.folders
  keys : u.files.keys = t.files.keys

theorem SameShape.refl (t : FileTree α) : SameShape t t :=
  ⟨rfl, rfl, rfl⟩

theorem SameShape.trans {v : FileTree α} (h : SameShape t u) (h' : SameShape u v) : SameShape t v :=
  ⟨h'.here.trans h.here, h'.folders.trans h.folders, h'.keys.trans h.keys⟩

theorem SameShape.symm (h : SameShape t u) : SameShape u t :=
  ⟨h.here.symm, h.folders.symm, h.keys.symm⟩

theorem sameShape_put (h : t.find? place = some (.file c)) (d : α) : SameShape t (t.put place d) :=
  ⟨rfl, rfl, keys_put h d⟩

theorem SameShape.entries (h : SameShape t u) (place : Location) :
    (u.find? place).map Entry.isFile = (t.find? place).map Entry.isFile :=
  entries_congr h.folders h.keys place

theorem SameShape.exists_file (h : SameShape t u) (hFile : t.find? place = some (.file c)) :
    ∃ d, u.find? place = some (.file d) := by
  have hEntry := h.entries place
  rw [hFile] at hEntry
  obtain ⟨e, he, hIsFile⟩ := Option.map_eq_some_iff.mp hEntry
  cases e with
  | file d => exact ⟨d, he⟩
  | folder => cases hIsFile

theorem SameShape.walk_eq (h : SameShape t u) (place : Location) (pieces : List String) :
    u.walk place pieces = t.walk place pieces :=
  walk_congr h.entries place pieces

theorem SameShape.locate_eq (h : SameShape t u) (p : Path) : u.locate p = t.locate p :=
  locate_congr h.here h.entries p

theorem SameShape.writable_eq (h : SameShape t u) (p : Path) : u.writable p = t.writable p := by
  have hStart : u.startOf p = t.startOf p := by rw [startOf, startOf, h.here]
  unfold writable
  rw [hStart, h.walk_eq]
  cases t.walk (t.startOf p) (unslashedPieces p) with
  | error e => rfl
  | ok place =>
    have hEntry := h.entries place
    cases hOld : t.find? place with
    | none =>
      rw [hOld] at hEntry
      simp only [bind, Except.bind, hOld, Option.map_eq_none_iff.mp hEntry]
    | some e =>
      rw [hOld] at hEntry
      obtain ⟨e', he', hSame⟩ := Option.map_eq_some_iff.mp hEntry
      simp only [bind, Except.bind, hOld, he']
      cases e <;> cases e' <;> first | rfl | cases hSame

theorem resolve_eq_ok_iff {e : Entry α} :
    t.resolve p = .ok (place, e) ↔ t.locate p = .ok place ∧ t.find? place = some e := by
  unfold resolve
  cases hLocate : t.locate p with
  | error cause => simp [bind, Except.bind]
  | ok there =>
    cases hFind : t.find? there with
    | none =>
      simp only [bind, Except.bind, hFind, throw, throwThe, MonadExceptOf.throw, reduceCtorEq, false_iff,
        Except.ok.injEq, not_and]
      rintro rfl hSome
      rw [hFind] at hSome
      cases hSome
    | some found =>
      simp only [bind, Except.bind, hFind, pure, Except.pure, Except.ok.injEq, Prod.mk.injEq]
      refine and_congr_right ?_
      rintro rfl
      rw [hFind, Option.some.injEq]

theorem read_eq_ok_iff :
    t.read p = .ok c ↔ ∃ place, t.locate p = .ok place ∧ t.find? place = some (.file c) := by
  unfold read resolve
  cases hLocate : t.locate p with
  | error e => simp [bind, Except.bind]
  | ok place =>
    cases hFind : t.find? place with
    | none => simp [bind, Except.bind, hFind, throw, throwThe, MonadExceptOf.throw]
    | some e =>
      cases e with
      | file d => simp [bind, Except.bind, hFind, pure, Except.pure]
      | folder => simp [bind, Except.bind, hFind, pure, Except.pure, throw, throwThe, MonadExceptOf.throw]

theorem read_congr (hLocate : u.locate p = t.locate p)
    (hFind : ∀ place, t.locate p = .ok place → u.find? place = t.find? place) :
    u.read p = t.read p := by
  unfold read resolve
  rw [hLocate]
  cases hPlace : t.locate p with
  | error e => rfl
  | ok place =>
    simp only [bind, Except.bind]
    rw [hFind place hPlace]

/-- Where a part of a path leads from a place. -/
def follow (place : Location) : Path.Part → Location
  | .root => []
  | .here => place
  | .up => place.dropLast
  | .name chars => place ++ [String.ofList chars]

theorem step_eq_ok {piece : List Char} (h : t.step place (String.ofList piece) = .ok other) :
    other = (Path.partOfPiece? piece).toList.foldl follow place := by
  unfold step at h
  split at h
  next => cases h
  next => cases h
  next =>
    have hIs (chars : List Char) : String.ofList piece = String.ofList chars ↔ piece = chars :=
      String.ofList_inj
    have hEmpty : String.ofList piece = "" ↔ piece = [] := hIs []
    have hDot : String.ofList piece = "." ↔ piece = ['.'] := hIs ['.']
    have hDots : String.ofList piece = ".." ↔ piece = ['.', '.'] := hIs ['.', '.']
    simp only [hEmpty, hDot, hDots] at h
    unfold Path.partOfPiece?
    split at h
    next hStay =>
      obtain rfl := Except.ok.inj h
      rcases hStay with rfl | rfl <;> rfl
    next hGo =>
      rw [not_or] at hGo
      rw [if_neg hGo.1, if_neg hGo.2]
      split at h
      next hUp =>
        rw [if_pos hUp]
        exact (Except.ok.inj h).symm
      next hName =>
        rw [if_neg hName]
        exact (Except.ok.inj h).symm

theorem walk_eq_ok {pieces : List (List Char)} (h : t.walk place (pieces.map String.ofList) = .ok other) :
    other = (pieces.filterMap Path.partOfPiece?).foldl follow place := by
  induction pieces generalizing place with
  | nil => exact (Except.ok.inj h).symm
  | cons piece rest ih =>
    rw [List.map_cons, walk] at h
    cases hStep : t.step place (String.ofList piece) with
    | error e =>
      rw [hStep] at h
      cases h
    | ok next =>
      rw [hStep] at h
      rw [ih h, step_eq_ok hStep, ← List.foldl_append]
      congr 1
      rw [List.filterMap_cons]
      cases Path.partOfPiece? piece <;> rfl

/-- Where a path leads is said by its parts. -/
theorem locate_eq_ok (h : t.locate p = .ok place) : place = p.parts.foldl follow t.here := by
  unfold locate at h
  split at h
  next => cases h
  next =>
    have hWalk := walk_eq_ok h
    rw [hWalk]
    unfold startOf Path.parts
    dsimp only
    split
    next => rfl
    next =>
      split <;> rfl

theorem locate_eq_of_same {q : Path} (hSame : p.same q = true) (h : t.locate p = .ok place)
    (h' : t.locate q = .ok other) : place = other := by
  rw [locate_eq_ok h, locate_eq_ok h', Path.same_iff.mp hSame]

theorem walk_append (t : FileTree α) (place : Location) (front back : List String) :
    t.walk place (front ++ back) = (t.walk place front).bind fun next => t.walk next back := by
  induction front generalizing place with
  | nil => rfl
  | cons piece front ih =>
    rw [List.cons_append, walk, walk]
    cases t.step place piece with
    | error e => rfl
    | ok next => exact ih next

theorem unslashedPieces_eq (h : (piecesOf p).getLast? ≠ some "") : unslashedPieces p = piecesOf p := by
  rcases List.eq_nil_or_concat (piecesOf p) with hNil | ⟨front, last, hPieces⟩
  · rw [unslashedPieces, hNil]
    rfl
  · rw [List.concat_eq_append] at hPieces
    rw [hPieces, List.getLast?_concat] at h
    have hLast : last ≠ "" := fun hEmpty => h (congrArg some hEmpty)
    rw [unslashedPieces, hPieces, List.reverse_append, List.reverse_singleton, List.singleton_append,
      List.dropWhile_cons_of_neg (by simpa using hLast), List.reverse_cons, List.reverse_reverse]

/-- A path that leads to a file ends in the name of the file. -/
theorem getLast?_piecesOf_ne (h : t.locate p = .ok place) (hFile : t.find? place = some (.file c)) :
    (piecesOf p).getLast? ≠ some "" := by
  intro hLast
  obtain ⟨front, hPieces⟩ := List.getLast?_eq_some_iff.mp hLast
  unfold locate at h
  split at h
  next => cases h
  next =>
    rw [hPieces, walk_append] at h
    cases hFront : t.walk (t.startOf p) front with
    | error e =>
      rw [hFront] at h
      cases h
    | ok next =>
      rw [hFront] at h
      -- The empty last piece needs a folder to stay in.
      cases hNext : t.find? next with
      | none => simp [Except.bind, walk, step, hNext, bind] at h
      | some e =>
        cases e with
        | file d => simp [Except.bind, walk, step, hNext, bind] at h
        | folder =>
          obtain rfl : next = place := by simpa [Except.bind, walk, step, hNext, bind] using h
          rw [hNext] at hFile
          cases hFile

theorem writable_eq_ok_iff : t.writable p = .ok place ↔ p.text ≠ "" ∧
    t.walk (t.startOf p) (unslashedPieces p) = .ok place ∧ namesFolder p = false ∧
      t.find? place ≠ some .folder := by
  unfold writable
  by_cases hText : p.text = ""
  · simp [hText, bind, Except.bind, throw, throwThe, MonadExceptOf.throw]
  rw [if_neg hText]
  cases t.walk (t.startOf p) (unslashedPieces p) with
  | error e => simp [bind, Except.bind]
  | ok next =>
    cases namesFolder p with
    | true => simp [bind, Except.bind, throw, throwThe, MonadExceptOf.throw]
    | false =>
      simp only [bind, Except.bind, pure, Except.pure, Bool.false_eq_true, if_false]
      split
      next hFolder =>
        constructor
        · intro h
          cases h
        · rintro ⟨_, hPlace, _, hNot⟩
          obtain rfl := Except.ok.inj hPlace
          exact absurd hFolder hNot
      next hNot =>
        constructor
        · intro h
          obtain rfl := Except.ok.inj h
          exact ⟨hText, rfl, trivial, hNot⟩
        · exact fun h => h.2.1

/-- A file is written at the place where it is read. -/
theorem eq_of_writable (h : t.locate p = .ok place) (hFile : t.find? place = some (.file c))
    (hWritable : t.writable p = .ok other) : other = place := by
  obtain ⟨hText, hWalk, _⟩ := writable_eq_ok_iff.mp hWritable
  rw [unslashedPieces_eq (getLast?_piecesOf_ne h hFile)] at hWalk
  rw [locate, if_neg hText] at h
  exact Except.ok.inj (hWalk.symm.trans h)

theorem write_eq_ok_iff : t.write p d = .ok u ↔ ∃ place, t.writable p = .ok place ∧ u = t.put place d := by
  unfold write
  cases t.writable p with
  | error e => simp [bind, Except.bind]
  | ok place => simp [bind, Except.bind, pure, Except.pure, eq_comm]

theorem write_eq_error_iff {cause : OsError} :
    t.write p d = .error cause ↔ t.writable p = .error cause := by
  unfold write
  cases t.writable p <;> simp [bind, Except.bind, pure, Except.pure]

/-- Writing to a file that can be read changes that file. -/
theorem write_of_file (h : t.locate p = .ok place) (hFile : t.find? place = some (.file c))
    (hWrite : t.write p d = .ok u) : u = t.put place d := by
  obtain ⟨other, hWritable, rfl⟩ := write_eq_ok_iff.mp hWrite
  rw [eq_of_writable h hFile hWritable]

/-- No two of the paths lead to the same place. -/
def Distinct (t : FileTree α) (paths : List Path) : Prop :=
  paths.Pairwise fun p q => ∀ place, t.locate p = .ok place → t.locate q ≠ .ok place

/-- Whether two paths lead to the same place can be found out by following them. -/
def decideApart (t : FileTree α) (p q : Path) :
    Decidable (∀ place, t.locate p = .ok place → t.locate q ≠ .ok place) :=
  match t.locate p with
  | .error _ => isTrue nofun
  | .ok place =>
    if hq : t.locate q = .ok place then isFalse fun h => h place rfl hq
    else isTrue fun _ hSame => Except.ok.inj hSame ▸ hq

instance (t : FileTree α) (paths : List Path) : Decidable (t.Distinct paths) :=
  haveI : DecidableRel fun p q : Path => ∀ place, t.locate p = .ok place → t.locate q ≠ .ok place :=
    t.decideApart
  inferInstanceAs (Decidable (paths.Pairwise _))

/-- The files at the paths can be written if they can be read. -/
def Writable (t : FileTree α) (paths : List Path) : Prop :=
  ∀ p ∈ paths, (t.read p).isOk = true → (t.writable p).isOk = true

instance (t : FileTree α) (paths : List Path) : Decidable (t.Writable paths) :=
  inferInstanceAs (Decidable (∀ p ∈ paths, (t.read p).isOk = true → (t.writable p).isOk = true))

def LeadsToFile (t : FileTree α) (p : Path) : Prop :=
  ∃ place c, t.locate p = .ok place ∧ t.find? place = some (.file c)

theorem leadsToFile_of_read (h : t.read p = .ok c) : t.LeadsToFile p := by
  obtain ⟨place, hLocate, hFile⟩ := read_eq_ok_iff.mp h
  exact ⟨place, c, hLocate, hFile⟩

theorem LeadsToFile.of_sameShape (h : t.LeadsToFile p) (hShape : SameShape t u) :
    u.LeadsToFile p := by
  obtain ⟨place, c, hLocate, hFile⟩ := h
  obtain ⟨d, hFile'⟩ := hShape.exists_file hFile
  exact ⟨place, d, (hShape.locate_eq p).trans hLocate, hFile'⟩

theorem Distinct.of_sameShape {paths : List Path} (h : t.Distinct paths) (hShape : SameShape t u) :
    u.Distinct paths := by
  refine h.imp fun {p q} hApart place hp => ?_
  rw [hShape.locate_eq] at hp ⊢
  exact hApart place hp

theorem Distinct.eq_of_locate {ι : Type} {f : ι → Path} {l : List ι} (h : t.Distinct (l.map f)) {a b : ι}
    (ha : a ∈ l) (hb : b ∈ l) (hLocate : t.locate (f a) = .ok place)
    (hLocate' : t.locate (f b) = .ok place) : a = b := by
  by_contra hNe
  let R (a b : ι) : Prop := ∀ place, t.locate (f a) = .ok place → t.locate (f b) ≠ .ok place
  have : Std.Symm R := ⟨fun a b hApart place hb ha => hApart place ha hb⟩
  have hPairs : l.Pairwise R := List.pairwise_map.mp h
  exact hPairs.forall ha hb hNe place hLocate hLocate'

theorem Distinct.perm {paths paths' : List Path} (h : t.Distinct paths) (hPerm : paths.Perm paths') :
    t.Distinct paths' :=
  List.Pairwise.perm h hPerm fun hApart place hq hp => hApart place hp hq

/-- Trees of the same shape are equal when their files are. -/
theorem SameShape.eq_of_find?_eq (h : SameShape t u) (hFind : ∀ place, u.find? place = t.find? place) :
    u = t := by
  have hFiles : u.files = t.files := by
    apply OrderedMap.eq_of_find?_eq h.keys
    intro place
    cases hOld : t.files.find? place with
    | none =>
      rw [Option.eq_none_iff_forall_ne_some]
      intro c hNew
      rw [← find?_eq_file_iff, hFind, find?_eq_file_iff, hOld] at hNew
      cases hNew
    | some c => rw [← find?_eq_file_iff, hFind, find?_eq_file_iff, hOld]
  obtain ⟨hHere, hFolders, _⟩ := h
  cases t
  cases u
  cases hFiles
  cases hHere
  cases hFolders
  rfl

/-! ## Files that may be new -/

theorem find?_eq_folder_iff :
    t.find? place = some .folder ↔ t.files.find? place = none ∧ t.isFolder place = true := by
  unfold find?
  cases t.files.find? place <;> simp

theorem mem_keys_put (h : other ∈ t.files.keys) (place : Location) (d : α) :
    other ∈ (t.put place d).files.keys := by
  have hKeys := OrderedMap.map_fst_setEntry place d t.files.entries
  have hPut : (t.put place d).files.keys = (OrderedMap.setEntry place d t.files.entries).map Prod.fst := rfl
  rw [hPut, hKeys]
  split
  next => exact h
  next => exact List.mem_append_left _ h

theorem isFolder_put (h : t.isFolder other = true) (place : Location) (d : α) :
    (t.put place d).isFolder other = true := by
  rw [isFolder, Bool.or_eq_true, List.any_eq_true] at h ⊢
  rcases h with h | ⟨f, hf, hBelow⟩
  · exact .inl h
  · exact .inr ⟨f, mem_keys_put hf place d, hBelow⟩

/-- Folders stay folders when a file is put where no folder is. -/
theorem find?_put_of_folder (hPlace : t.find? place ≠ some .folder) (h : t.find? other = some .folder)
    (d : α) : (t.put place d).find? other = some .folder := by
  have hOther : place ≠ other := by
    rintro rfl
    exact hPlace h
  obtain ⟨hNone, hFolder⟩ := find?_eq_folder_iff.mp h
  refine find?_eq_folder_iff.mpr ⟨?_, isFolder_put hFolder place d⟩
  rw [put, OrderedMap.find?_insert, if_neg hOther, hNone]

theorem find?_of_step {piece : String} {next : Location} (h : t.step other piece = .ok next) :
    t.find? other = some .folder := by
  unfold step at h
  split at h
  next => cases h
  next => cases h
  next hFolder => exact hFolder

theorem step_put (hPlace : t.find? place ≠ some .folder) {piece : String} {next : Location}
    (h : t.step other piece = .ok next) (d : α) : (t.put place d).step other piece = .ok next := by
  have hFolder := find?_of_step h
  rw [← h]
  apply step_congr
  rw [hFolder, find?_put_of_folder hPlace hFolder d]

theorem walk_put (hPlace : t.find? place ≠ some .folder) {pieces : List String} {next : Location}
    (h : t.walk other pieces = .ok next) (d : α) : (t.put place d).walk other pieces = .ok next := by
  -- Every step goes on from a folder, and the place where the file is put is none.
  induction pieces generalizing other with
  | nil => exact h
  | cons piece rest ih =>
    rw [walk] at h ⊢
    cases hStep : t.step other piece with
    | error e =>
      rw [hStep] at h
      cases h
    | ok after =>
      rw [hStep] at h
      rw [step_put hPlace hStep]
      exact ih h

theorem getLast?_piecesOf_ne_of_namesFolder (h : namesFolder p = false) :
    (piecesOf p).getLast? ≠ some "" := by
  intro hLast
  simp [namesFolder, hLast] at h

/-- What has been written is read. -/
theorem read_put (h : t.writable p = .ok place) (d : α) : (t.put place d).read p = .ok d := by
  obtain ⟨hText, hWalk, hNames, hPlace⟩ := writable_eq_ok_iff.mp h
  rw [unslashedPieces_eq (getLast?_piecesOf_ne_of_namesFolder hNames)] at hWalk
  refine read_eq_ok_iff.mpr ⟨place, ?_, find?_put_self⟩
  rw [locate, if_neg hText]
  exact walk_put hPlace hWalk d

theorem contains_congr {β : Type} {v : FileTree β} (hHere : v.here = t.here)
    (hFolders : v.folders = t.folders) (hKeys : v.files.keys = t.files.keys) (p : Path) :
    v.contains p = t.contains p := by
  have hEntries := entries_congr hFolders hKeys
  unfold contains resolve
  rw [locate_congr hHere hEntries]
  cases t.locate p with
  | error e => rfl
  | ok place =>
    have hEntry := hEntries place
    cases hOld : t.find? place with
    | none =>
      rw [hOld] at hEntry
      simp only [bind, Except.bind, hOld, Option.map_eq_none_iff.mp hEntry]
      rfl
    | some e =>
      rw [hOld] at hEntry
      obtain ⟨e', he', _⟩ := Option.map_eq_some_iff.mp hEntry
      simp only [bind, Except.bind, hOld, he']
      rfl

theorem contains_skeleton (t : FileTree ByteArray) (p : Path) : t.skeleton.contains p = t.contains p := by
  have hFirst : (t.files.keys.map fun place => (place, ())).map Prod.fst = t.files.keys := by
    rw [List.map_map]
    exact List.map_id _
  have hNodup : t.files.keys.Nodup := t.files.nodup
  have hKeys : t.skeleton.files.keys = t.files.keys := by
    rw [OrderedMap.keys, skeleton, OrderedMap.entries_ofList (by rwa [hFirst]), hFirst]
  exact contains_congr (t := t) (v := t.skeleton) rfl rfl hKeys p

end DocWiring.FileTree
