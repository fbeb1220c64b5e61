import DocWiring.Glob
import DocWiring.Proofs.Text.Pieces

/-! # What patterns accept

A pattern that names a folder anywhere on the way accepts the paths with a part of that name before the
last one.  A pattern that names an ending accepts the paths that end so.
-/

namespace DocWiring.Glob

variable {ts : List Token} {text cs : List Char}

theorem acceptsAll_chars_append_iff : acceptsAll (text.map .char ++ ts) cs = true ↔
    ∃ rest, cs = text ++ rest ∧ acceptsAll ts rest = true := by
  induction text generalizing cs with
  | nil => simp
  | cons c text ih =>
    cases cs with
    | nil => simp [acceptsAll, Token.accepts]
    | cons d r =>
      simp only [List.map_cons, List.cons_append, acceptsAll, Token.accepts, Bool.and_eq_true, beq_iff_eq,
        ih, List.cons.injEq]
      grind

theorem acceptsAll_anyRun_iff : acceptsAll (.anyRun :: ts) cs = true ↔
    ∃ rest, rest <:+ cs ∧ acceptsAll ts rest = true := by
  simp [acceptsAll, Token.accepts, mem_suffixes_iff, List.IsSuffix]

theorem acceptsAll_anyDirs_iff : acceptsAll (.anyDirs :: ts) cs = true ↔
    acceptsAll ts cs = true ∨ (∃ before rest, cs = before ++ '/' :: rest ∧ acceptsAll ts rest = true) ∨
      acceptsAll ts [] = true := by
  simp only [acceptsAll, Token.accepts, Bool.or_eq_true, List.any_eq_true, mem_afterSlashes_iff,
    or_assoc]
  grind

/-- The tokens of a pattern for all that lies below a folder of this name. -/
def folderTokens (name : List Char) : List Token :=
  .anyDirs :: (name.map .char ++ [.char '/', .anyDirs])

/-- The tokens of a pattern for all files that end like this. -/
def endingTokens (ending : List Char) : List Token :=
  .anyDirs :: .anyRun :: ending.map .char

theorem acceptsAll_inside_iff {name : List Char} :
    acceptsAll (name.map .char ++ [.char '/', .anyDirs]) cs = true ↔
      ∃ after, cs = name ++ '/' :: after := by
  have hRest (rest : List Char) : acceptsAll [.char '/', .anyDirs] rest = true ↔
      ∃ after, rest = '/' :: after := by
    cases rest with
    | nil => simp [acceptsAll, Token.accepts]
    | cons c r => simp [acceptsAll, Token.accepts]
  simp only [acceptsAll_chars_append_iff, hRest]
  grind

theorem acceptsAll_folderTokens_iff {name : List Char} (hName : '/' ∉ name) :
    acceptsAll (folderTokens name) cs = true ↔ name ∈ (Text.pieces '/' cs).dropLast := by
  rw [folderTokens, acceptsAll_anyDirs_iff, Text.mem_dropLast_pieces_iff hName]
  simp only [acceptsAll_inside_iff]
  constructor
  · rintro (h | ⟨before, rest, rfl, after, rfl⟩ | ⟨after, hNil⟩)
    · exact .inl h
    · exact .inr ⟨before, after, rfl⟩
    · simp at hNil
  · rintro (h | ⟨before, after, rfl⟩)
    · exact .inl h
    · exact .inr (.inl ⟨before, name ++ '/' :: after, rfl, after, rfl⟩)

theorem acceptsAll_endingTokens_iff {ending : List Char} :
    acceptsAll (endingTokens ending) cs = true ↔ ending <:+ cs := by
  have hChars (t : List Char) : acceptsAll (ending.map .char) t = true ↔ t = ending := by
    have hAppend : acceptsAll (ending.map .char ++ []) t = true ↔ _ := acceptsAll_chars_append_iff
    simpa [acceptsAll] using hAppend
  rw [endingTokens, acceptsAll_anyDirs_iff]
  simp only [acceptsAll_anyRun_iff, hChars, exists_eq_right]
  constructor
  · rintro (h | ⟨before, rest, rfl, h⟩ | h)
    · exact h
    · exact h.trans (List.suffix_append_of_suffix (List.suffix_cons _ _))
    · exact h.trans List.nil_suffix
  · exact .inl

/-! ## Reading the patterns -/

/-- The character stands for itself in a pattern. -/
def Plain (c : Char) : Prop :=
  c ≠ '?' ∧ c ≠ '*' ∧ c ≠ '['

instance (c : Char) : Decidable (Plain c) :=
  inferInstanceAs (Decidable (_ ∧ _))

theorem readTokens_nil (fuel pos : Nat) (prev : Option Char) : readTokens fuel pos prev [] = .ok [] := by
  cases fuel <;> rfl

theorem readTokens_plain {c : Char} (hc : Plain c) (fuel pos : Nat) (prev : Option Char)
    (r : List Char) : readTokens (fuel + 1) pos prev (c :: r) =
      (readTokens fuel (pos + 1) (some c) r).map (.char c :: ·) := by
  rw [readTokens, if_neg hc.1, if_neg hc.2.1, if_neg hc.2.2]
  cases readTokens fuel (pos + 1) (some c) r <;> rfl

/-- Plain characters are read one after another, and the last one is remembered. -/
theorem readTokens_append (hText : ∀ c ∈ text, Plain c) (fuel pos : Nat) (prev : Option Char)
    (r : List Char) : readTokens (fuel + text.length) pos prev (text ++ r) =
      (readTokens fuel (pos + text.length) (text.getLast?.or prev) r).map (text.map .char ++ ·) := by
  induction text generalizing pos prev with
  | nil =>
    have hId (x : Except Fault (List Token)) : x.map ([] ++ ·) = x := by cases x <;> rfl
    exact (hId _).symm
  | cons c text ih =>
    obtain ⟨hc, hRest⟩ := List.forall_mem_cons.mp hText
    have hLast : (c :: text).getLast?.or prev = text.getLast?.or (some c) := by
      cases hEnd : text.getLast? <;> simp [List.getLast?_cons, hEnd]
    rw [List.cons_append, List.length_cons, ← Nat.add_assoc, readTokens_plain hc, ih hRest, hLast,
      Nat.add_right_comm pos 1]
    cases readTokens fuel (pos + text.length + 1) (text.getLast?.or (some c)) r <;> rfl

theorem readTokens_dirs (fuel pos : Nat) {prev : Option Char} (hPrev : prev.all (· == '/') = true)
    (r : List Char) : readTokens (fuel + 1) pos prev ('*' :: '*' :: '/' :: r) =
      (readTokens fuel (pos + 3) (some '/') r).map (.anyDirs :: ·) := by
  have hStars : ('*' :: '/' :: r).takeWhile (· == '*') = ['*'] := by simp
  have hRest : ('*' :: '/' :: r).dropWhile (· == '*') = '/' :: r := by simp
  rw [readTokens, if_neg (by decide), if_pos rfl]
  simp only [hStars, hRest, hPrev]
  cases readTokens fuel (pos + 3) (some '/') r <;> rfl

theorem readTokens_lastDirs (fuel pos : Nat) {prev : Option Char} (hPrev : prev.all (· == '/') = true) :
    readTokens (fuel + 1) pos prev ['*', '*'] = .ok [.anyDirs] := by
  have hStars : ['*'].takeWhile (· == '*') = ['*'] := rfl
  have hRest : ['*'].dropWhile (· == '*') = [] := rfl
  rw [readTokens, if_neg (by decide), if_pos rfl]
  simp only [hStars, hRest, hPrev]
  rfl

theorem readTokens_run {c : Char} (hc : Plain c) (fuel pos : Nat) (prev : Option Char) (r : List Char) :
    readTokens (fuel + 1) pos prev ('*' :: c :: r) =
      (readTokens fuel (pos + 1) (some '*') (c :: r)).map (.anyRun :: ·) := by
  have hStars : (c :: r).takeWhile (· == '*') = [] := by simp [hc.2.1]
  have hRest : (c :: r).dropWhile (· == '*') = c :: r := by simp [hc.2.1]
  rw [readTokens, if_neg (by decide), if_pos rfl]
  simp only [hStars, hRest]
  cases readTokens fuel (pos + 1) (some '*') (c :: r) <;> rfl

theorem parse_folder {name : String} (hName : ∀ c ∈ name.toList, Plain c) :
    Pattern.parse ("**/" ++ name ++ "/**") = .ok ⟨folderTokens name.toList⟩ := by
  have hText : ("**/" ++ name ++ "/**").toList =
      '*' :: '*' :: '/' :: (name.toList ++ '/' :: ['*', '*']) := by
    simp
  have hLength : ('*' :: '*' :: '/' :: (name.toList ++ '/' :: ['*', '*'])).length =
      4 + 1 + name.toList.length + 1 := by
    simp
    omega
  simp only [Pattern.parse, hText, hLength]
  rw [readTokens_dirs _ _ rfl, readTokens_append hName, readTokens_plain (by decide),
    readTokens_lastDirs _ _ rfl]
  rfl

theorem parse_ending {c : Char} {ending : List Char} (hEnding : ∀ d ∈ c :: ending, Plain d) :
    Pattern.parse ("**/*" ++ String.ofList (c :: ending)) = .ok ⟨endingTokens (c :: ending)⟩ := by
  have hText : ("**/*" ++ String.ofList (c :: ending)).toList = '*' :: '*' :: '/' :: '*' :: c :: ending := by
    simp
  have hLength : ('*' :: '*' :: '/' :: '*' :: c :: ending).length =
      2 + (c :: ending).length + 1 + 1 := by
    simp
    omega
  have hAll := readTokens_append hEnding 2 4 (some '*') []
  rw [List.append_nil, readTokens_nil] at hAll
  simp only [Pattern.parse, hText, hLength]
  rw [readTokens_dirs _ _ rfl, readTokens_run (hEnding c List.mem_cons_self), hAll]
  simp [Except.map, endingTokens, pure, Except.pure, bind, Except.bind]

end DocWiring.Glob
