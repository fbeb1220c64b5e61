import DocWiring.FileFilter
import DocWiring.Proofs.Glob

/-! # What filters take

A filter of an ending and of folder names takes the paths with that ending on which none of the folders
lies.  The filter that holds without a configuration is one of these.
-/

namespace DocWiring.FileFilter

open Glob (Plain Pattern folderTokens endingTokens)

/-- The names between slashes that a path goes through before its last one. -/
def foldersOf (path : String) : List String :=
  (Text.pieces '/' path.toList).dropLast.map String.ofList

theorem mem_foldersOf_iff {path name : String} :
    name ∈ foldersOf path ↔ name.toList ∈ (Text.pieces '/' path.toList).dropLast := by
  rw [foldersOf, List.mem_map]
  constructor
  · rintro ⟨part, hPart, rfl⟩
    rwa [String.toList_ofList]
  · exact fun h => ⟨_, h, String.ofList_toList⟩

theorem patterns_folders {names : List String} (h : ∀ name ∈ names, ∀ c ∈ name.toList, Plain c) :
    patterns (names.map fun name => "**/" ++ name ++ "/**") =
      .ok (names.map fun name => ⟨folderTokens name.toList⟩) := by
  induction names with
  | nil => rfl
  | cons name names ih =>
    obtain ⟨hName, hRest⟩ := List.forall_mem_cons.mp h
    rw [List.map_cons, patterns, Config.pattern, Glob.parse_folder hName, ih hRest]
    rfl

theorem patterns_ending {c : Char} {ending : List Char} (h : ∀ d ∈ c :: ending, Plain d) :
    patterns ["**/*" ++ String.ofList (c :: ending)] = .ok [⟨endingTokens (c :: ending)⟩] := by
  rw [patterns, Config.pattern, Glob.parse_ending h]
  rfl

/-- The filter of an ending and of folder names. -/
def ofEnding (ending : List Char) (names : List String) : FileFilter :=
  ⟨[⟨endingTokens ending⟩], names.map fun name => ⟨folderTokens name.toList⟩⟩

theorem ofEnding_accepts_iff {ending : List Char} {names : List String}
    (hNames : ∀ name ∈ names, '/' ∉ name.toList) (path : String) :
    (ofEnding ending names).accepts path = true ↔
      ending <:+ path.toList ∧ ∀ folder ∈ foldersOf path, folder ∉ names := by
  have hExcluded : ((ofEnding ending names).excluded.any (·.accepts path)) = true ↔
      ∃ name ∈ names, name ∈ foldersOf path := by
    simp only [ofEnding, List.any_map, List.any_eq_true, Function.comp, Pattern.accepts]
    refine exists_congr fun name => and_congr_right fun hName => ?_
    rw [Glob.acceptsAll_folderTokens_iff (hNames name hName), mem_foldersOf_iff]
  have hIncluded : ((ofEnding ending names).included.any (·.accepts path)) = true ↔
      ending <:+ path.toList := by
    simp [ofEnding, Pattern.accepts, Glob.acceptsAll_endingTokens_iff]
  have hSome : (ofEnding ending names).included.isEmpty = false := rfl
  rw [accepts, hSome, Bool.false_or, Bool.and_eq_true, Bool.not_eq_true', ← Bool.not_eq_true,
    hIncluded, hExcluded]
  grind

/-- Without a configuration, the files that end in `.php` are taken, except those below a folder of one of
four names. -/
theorem accepts_standard_iff : ∃ filter, ofConfig Config.standard = .ok filter ∧
    ∀ path : String, filter.accepts path = true ↔ ".php".toList <:+ path.toList ∧
      ∀ folder ∈ foldersOf path, folder ∉ ["vendor", "node_modules", "tmp", ".git"] := by
  have hPhp : ".php".toList = ['.', 'p', 'h', 'p'] := by decide +kernel
  have hIncluded : Config.standard.included = ["**/*" ++ String.ofList ['.', 'p', 'h', 'p']] := by
    decide +kernel
  have hExcluded : Config.standard.excluded =
      ["vendor", "node_modules", "tmp", ".git"].map fun name => "**/" ++ name ++ "/**" := by
    decide +kernel
  have hEnding : ∀ d ∈ ['.', 'p', 'h', 'p'], Plain d := by simp [Plain]
  have hNames : ∀ name ∈ ["vendor", "node_modules", "tmp", ".git"], ∀ c ∈ name.toList, Plain c := by
    simp [Plain]
  rw [hPhp]
  refine ⟨ofEnding ['.', 'p', 'h', 'p'] ["vendor", "node_modules", "tmp", ".git"], ?_, ?_⟩
  · rw [ofConfig, hIncluded, hExcluded, patterns_ending hEnding, patterns_folders hNames]
    rfl
  · exact ofEnding_accepts_iff (by decide +kernel)

end DocWiring.FileFilter
