import DocWiring.DocBlock.Annotation
import DocWiring.Proofs.Text.Classes
import DocWiring.Proofs.Text.Search

/-! # How an annotation is spelled

A spelling is an annotation piece by piece, from its star to the end of its symbol.  The reader finds
exactly the spellings that its search from left to right does not pass over, and of those that it passes
over every one has a type that starts with a dollar.
-/

namespace DocWiring

namespace Annotation

/-! ## Letters of either case -/

theorem sameLetters_iff {a b : List Char} :
    sameLetters a b = true ↔ a.map lowerChar = b.map lowerChar := by
  simp [sameLetters]

theorem sameLetters_symm {a b : List Char} (h : sameLetters a b = true) : sameLetters b a = true :=
  sameLetters_iff.mpr (sameLetters_iff.mp h).symm

theorem lowerChar_eq_or (c : Char) :
    lowerChar c = c ∨ Text.isWord c = true ∧ Text.isWord (lowerChar c) = true := by
  by_cases hUpper : c.isUpper = true
  · right
    have hLetters : ∀ n ∈ List.range' 65 26, Text.isAsciiWord (Char.ofNat n) = true ∧
        Text.isAsciiWord (lowerChar (Char.ofNat n)) = true := by decide
    have hMem : c.toNat ∈ List.range' 65 26 := by
      have h := Text.isUpper_iff.mp hUpper
      rw [List.mem_range'_1]
      omega
    obtain ⟨hBig, hSmall⟩ := hLetters c.toNat hMem
    rw [Char.ofNat_toNat] at hBig hSmall
    exact ⟨Text.isWord_of_isAsciiWord_eq_true hBig, Text.isWord_of_isAsciiWord_eq_true hSmall⟩
  · rw [Text.isUpper_iff] at hUpper
    exact .inl (dif_neg hUpper)

theorem isWord_lowerChar (c : Char) : Text.isWord (lowerChar c) = Text.isWord c := by
  rcases lowerChar_eq_or c with h | ⟨hBig, hSmall⟩
  · rw [h]
  · rw [hBig, hSmall]

theorem isBlank_lowerChar (c : Char) : Text.isBlank (lowerChar c) = Text.isBlank c := by
  rcases lowerChar_eq_or c with h | ⟨hBig, hSmall⟩
  · rw [h]
  · rw [Text.isBlank_of_isWord hBig, Text.isBlank_of_isWord hSmall]

/-- A property that does not tell letters of either case apart goes over to the other text. -/
theorem forall_of_sameLetters {p : Char → Bool} (hp : ∀ c, p (lowerChar c) = p c) {a b : List Char}
    {v : Bool} (h : sameLetters a b = true) (ha : ∀ c ∈ a, p c = v) : ∀ c ∈ b, p c = v := by
  intro c hc
  have hMem : lowerChar c ∈ a.map lowerChar := sameLetters_iff.mp h ▸ List.mem_map_of_mem hc
  obtain ⟨d, hd, hSame⟩ := List.mem_map.mp hMem
  rw [← hp c, ← hSame, hp d]
  exact ha d hd

theorem ne_nil_of_sameLetters {a b : List Char} (h : sameLetters a b = true) (ha : a ≠ []) :
    b ≠ [] := by
  rintro rfl
  exact ha (List.map_eq_nil_iff.mp (sameLetters_iff.mp h))

/-! ## Pieces -/

/-- White space, and some of it. -/
def IsGap (w : List Char) : Prop :=
  w ≠ [] ∧ ∀ c ∈ w, Text.isBlank c = true

theorem IsGap.head?_append {w : List Char} (h : IsGap w) (r : List Char) :
    ∀ c ∈ (w ++ r).head?, Text.isBlank c = true :=
  Text.forall_head?_append h.2 h.1 r

/-- The pieces of an annotation: what stands between the star and the tag, the tag, the type and the
symbol with the gaps before them. -/
structure Spelling where
  margin : List Char
  mark : List Char
  typeGap : List Char
  typeName : List Char
  symbolGap : List Char
  symbol : List Char
  margin_blank : ∀ c ∈ margin, Text.isBlank c = true
  mark_tag : sameLetters mark tag = true
  typeGap_gap : IsGap typeGap
  typed : typeName ≠ []
  solid : ∀ c ∈ typeName, Text.isBlank c = false
  symbolGap_gap : IsGap symbolGap
  named : symbol ≠ []
  word : ∀ c ∈ symbol, Text.isWord c = true

namespace Spelling

def text (s : Spelling) : List Char :=
  '*' :: (s.margin ++ s.mark ++ s.typeGap ++ s.typeName ++ s.symbolGap ++ '$' :: s.symbol)

end Spelling

/-- What follows a symbol is not a part of it. -/
def EndsSymbol (rest : List Char) : Prop :=
  ∀ c ∈ rest.head?, Text.isWord c = false

theorem afterTag?_eq_some_iff {t rest : List Char} :
    afterTag? t = some rest ↔ ∃ mark, t = mark ++ rest ∧ sameLetters mark tag = true := by
  unfold afterTag?
  constructor
  · intro h
    split at h
    next hSame =>
      obtain rfl := Option.some.inj h
      exact ⟨t.take tag.length, (List.take_append_drop _ _).symm, hSame⟩
    next => cases h
  · rintro ⟨mark, rfl, hSame⟩
    have hLength : tag.length = mark.length := by
      simpa using (congrArg List.length (sameLetters_iff.mp hSame)).symm
    rw [hLength, List.take_left, List.drop_left, if_pos hSame]

theorem afterBlank?_eq_some_iff {t rest : List Char} :
    afterBlank? t = some rest ↔
      ∃ gap, t = gap ++ rest ∧ IsGap gap ∧ ∀ c ∈ rest.head?, Text.isBlank c = false := by
  constructor
  · intro h
    cases t with
    | nil => cases h
    | cons c r =>
      rw [afterBlank?] at h
      split at h
      next hBlank =>
        obtain ⟨hSplit, hGap, hRest⟩ :=
          Text.takeWhile_dropWhile_iff.mp ⟨rfl, Option.some.inj h⟩
        refine ⟨_, hSplit, ⟨?_, hGap⟩, hRest⟩
        rw [List.takeWhile_cons_of_pos hBlank]
        simp
      next => cases h
  · rintro ⟨gap, rfl, ⟨hNil, hGap⟩, hRest⟩
    obtain ⟨c, r, rfl⟩ := List.exists_cons_of_ne_nil hNil
    have hDrop := (Text.takeWhile_dropWhile_iff.mpr ⟨rfl, hGap, hRest⟩).2
    rw [List.cons_append] at hDrop ⊢
    rw [afterBlank?, if_pos (hGap c List.mem_cons_self), hDrop]

theorem isBlank_head?_dollar (r : List Char) : ∀ c ∈ ('$' :: r).head?, Text.isBlank c = false := by
  rintro c ⟨⟩
  decide

namespace Spelling

theorem text_append (s : Spelling) (rest : List Char) :
    s.text ++ rest = '*' :: (s.margin ++ (s.mark ++ (s.typeGap ++ (s.typeName ++
      (s.symbolGap ++ '$' :: (s.symbol ++ rest)))))) := by
  simp [text]

theorem not_mem_mark {s : Spelling} {c : Char} (hc : lowerChar c ∉ tag.map lowerChar) :
    c ∉ s.mark :=
  fun hMem => hc (sameLetters_iff.mp s.mark_tag ▸ List.mem_map_of_mem hMem)

theorem mark_ne_nil (s : Spelling) : s.mark ≠ [] :=
  ne_nil_of_sameLetters (sameLetters_symm s.mark_tag) (by simp [tag])

theorem mark_solid (s : Spelling) : ∀ c ∈ s.mark, Text.isBlank c = false := by
  have hTag : tag.any Text.isBlank = false := by decide
  rw [List.any_eq_false] at hTag
  exact forall_of_sameLetters isBlank_lowerChar (sameLetters_symm s.mark_tag) fun c hc => by
    simpa using hTag c hc

end Spelling

/-- What is read at a star is a spelling, with as long a symbol as there is. -/
theorem exists_spelling_of_readAt? {t rest : List Char} {found : List Char × List Char}
    (h : readAt? t = some (found, rest)) :
    ∃ s : Spelling, t = s.text ++ rest ∧ found = (s.typeName, s.symbol) ∧ EndsSymbol rest := by
  unfold readAt? at h
  split at h
  next afterStar =>
    simp only [Option.bind_eq_bind, Option.bind_eq_some_iff] at h
    obtain ⟨afterTag, hTag, atType, hType, atSymbol, hSymbol, h⟩ := h
    split at h
    next name =>
      split at h
      next => cases h
      next hSome =>
        obtain ⟨rfl, rfl⟩ := Prod.mk.inj (Option.some.inj h)
        simp only [Bool.or_eq_true, List.isEmpty_iff, not_or] at hSome
        obtain ⟨mark, hMark, hSame⟩ := afterTag?_eq_some_iff.mp hTag
        obtain ⟨typeGap, rfl, hTypeGap, _⟩ := afterBlank?_eq_some_iff.mp hType
        obtain ⟨symbolGap, hAfterType, hSymbolGap, _⟩ := afterBlank?_eq_some_iff.mp hSymbol
        obtain ⟨hStar, hMargin, _⟩ := Text.takeWhile_dropWhile_iff.mp ⟨rfl, hMark⟩
        obtain ⟨hAtType, hSolid, _⟩ := Text.takeWhile_dropWhile_iff.mp ⟨rfl, hAfterType⟩
        obtain ⟨hName, hWord, hEnds⟩ :=
          (Text.takeWhile_dropWhile_iff (t := name) (p := Text.isWord)).mp ⟨rfl, rfl⟩
        refine ⟨⟨_, mark, typeGap, _, symbolGap, _, hMargin, hSame, hTypeGap, hSome.1,
          fun c hc => by simpa using hSolid c hc, hSymbolGap, hSome.2, hWord⟩, ?_, rfl, hEnds⟩
        simp only [Spelling.text, List.cons_append, List.append_assoc, ← hName, ← hAtType, ← hStar]
    next => cases h
  next => cases h

theorem Spelling.readAt?_text_append (s : Spelling) {rest : List Char} (hEnds : EndsSymbol rest) :
    readAt? (s.text ++ rest) = some ((s.typeName, s.symbol), rest) := by
  have hMargin (r : List Char) : (s.margin ++ (s.mark ++ r)).dropWhile Text.isBlank = s.mark ++ r :=
    (Text.takeWhile_dropWhile_iff.mpr ⟨rfl, s.margin_blank,
      Text.forall_head?_append s.mark_solid s.mark_ne_nil r⟩).2
  have hTag (r : List Char) : afterTag? (s.mark ++ r) = some r :=
    afterTag?_eq_some_iff.mpr ⟨s.mark, rfl, s.mark_tag⟩
  have hType (r : List Char) : afterBlank? (s.typeGap ++ (s.typeName ++ r)) =
      some (s.typeName ++ r) :=
    afterBlank?_eq_some_iff.mpr ⟨s.typeGap, rfl, s.typeGap_gap,
      Text.forall_head?_append s.solid s.typed r⟩
  have hSolid (r : List Char) := Text.takeWhile_dropWhile_iff.mpr
    ⟨rfl, fun c hc => congrArg (!·) (s.solid c hc), fun c hc => congrArg (!·)
      (s.symbolGap_gap.head?_append r c hc)⟩
  have hSymbol := afterBlank?_eq_some_iff.mpr ⟨s.symbolGap, rfl, s.symbolGap_gap,
    isBlank_head?_dollar (s.symbol ++ rest)⟩
  have hWord := Text.takeWhile_dropWhile_iff.mpr ⟨rfl, s.word, hEnds⟩
  have hTyped := List.isEmpty_eq_false_iff.mpr s.typed
  have hNamed := List.isEmpty_eq_false_iff.mpr s.named
  simp only [s.text_append, readAt?, hMargin, hTag, hType, hSolid, hSymbol, hWord, hTyped, hNamed,
    Option.bind_eq_bind, Option.bind_some, Bool.or_self, Bool.false_eq_true, if_false]

/-! ## Spellings that overlap -/

namespace Spelling

variable {s t : Spelling} {rest later before y inType : List Char}

/-- The only place for a star after the first one is the type. -/
theorem exists_of_star_inside (h : s.text = '*' :: (before ++ '*' :: y)) :
    ∃ inType, y = inType ++ (s.symbolGap ++ '$' :: s.symbol) ∧
      ∀ c ∈ inType, Text.isBlank c = false := by
  have hBlank {w : List Char} (hw : ∀ c ∈ w, Text.isBlank c = true) : '*' ∉ w :=
    fun hMem => absurd (hw '*' hMem) (by decide)
  have hMark : '*' ∉ s.mark := not_mem_mark (by decide)
  have hWord : '*' ∉ s.symbol := fun hMem => absurd (s.word '*' hMem) (by decide +kernel)
  have hFront : '*' ∉ s.margin ++ s.mark ++ s.typeGap := by
    simp [hBlank s.margin_blank, hMark, hBlank s.typeGap_gap.2]
  have hBack : '*' ∉ s.symbolGap ++ '$' :: s.symbol := by
    simp [hBlank s.symbolGap_gap.2, hWord]
  have hTail : before ++ '*' :: y =
      s.margin ++ s.mark ++ s.typeGap ++ (s.typeName ++ (s.symbolGap ++ '$' :: s.symbol)) := by
    simpa [text] using (List.cons.inj h).2.symm
  obtain ⟨inner, rfl⟩ := Text.prefix_of_append_cons hFront hTail
  rw [List.append_assoc _ inner] at hTail
  obtain ⟨inType, hType, hy⟩ :=
    Text.exists_of_append_eq hBack (List.append_cancel_left hTail).symm
  exact ⟨inType, hy, fun c hc => s.solid c (by simp [hType, hc])⟩

/-- A spelling that starts in the type of another has its tag there, and takes the dollar before the
other's symbol for the start of its type. -/
theorem head?_typeName_of_inside (hSolid : ∀ c ∈ inType, Text.isBlank c = false)
    (h : t.text ++ later = '*' :: (inType ++ (s.symbolGap ++ '$' :: s.symbol)) ++ rest) :
    t.typeName.head? = some '$' := by
  have hText : t.margin ++ (t.mark ++ (t.typeGap ++ (t.typeName ++
      (t.symbolGap ++ '$' :: (t.symbol ++ later))))) =
      inType ++ (s.symbolGap ++ '$' :: (s.symbol ++ rest)) := by
    rw [text_append] at h
    simpa using h
  have hMark := Text.forall_head?_append t.mark_solid t.mark_ne_nil
  by_cases hNil : inType = []
  · -- With the star at the end of the type, the dollar would stand where the tag does.
    rw [hNil, List.nil_append] at hText
    obtain ⟨_, hTag⟩ :=
      Text.run_unique hText t.margin_blank (hMark _) s.symbolGap_gap.2 (isBlank_head?_dollar _)
    have hHead := congrArg List.head? hTag
    rw [List.head?_append_of_ne_nil _ t.mark_ne_nil] at hHead
    exact absurd (List.mem_of_mem_head? hHead) (not_mem_mark (by decide))
  · rw [← List.nil_append (inType ++ _)] at hText
    obtain ⟨_, hTag⟩ := Text.run_unique hText t.margin_blank (hMark _) (by simp)
      (Text.forall_head?_append hSolid hNil _)
    obtain ⟨_, hGap⟩ := Text.run_unique hTag t.mark_solid
      (t.typeGap_gap.head?_append _) hSolid
      (s.symbolGap_gap.head?_append _)
    obtain ⟨_, hType⟩ := Text.run_unique hGap t.typeGap_gap.2
      (Text.forall_head?_append t.solid t.typed _) s.symbolGap_gap.2 (isBlank_head?_dollar _)
    have hHead := congrArg List.head? hType
    rwa [List.head?_append_of_ne_nil _ t.typed] at hHead

/-- A spelling whose type does not start with a dollar starts after the end of any earlier one. -/
theorem length_le_of_later (h : s.text ++ rest = '*' :: (before ++ (t.text ++ later)))
    (hDollar : t.typeName.head? ≠ some '$') : (t.text ++ later).length ≤ rest.length := by
  rw [← List.cons_append] at h
  rcases List.append_eq_append_iff.mp h with ⟨between, _, rfl⟩ | ⟨inside, hText, hLater⟩
  · simp
  · cases inside with
    | nil => exact le_of_eq (congrArg List.length hLater)
    | cons c y =>
      obtain rfl : '*' = c := by
        rw [text_append] at hLater
        exact (List.cons.inj hLater).1
      obtain ⟨inType, rfl, hSolid⟩ := exists_of_star_inside hText
      exact absurd (head?_typeName_of_inside hSolid hLater) hDollar

end Spelling

/-! ## Reading a line from left to right -/

theorem exists_of_mem_scan {skip : Nat} {t : List Char} {found : List Char × List Char}
    (h : found ∈ scan skip t) : ∃ before r rest, t = before ++ r ∧ readAt? r = some (found, rest) := by
  fun_induction scan skip t with
  | case1 => cases h
  | case2 _ c r ih =>
    obtain ⟨before, s, rest, rfl, hRead⟩ := ih h
    exact ⟨c :: before, s, rest, rfl, hRead⟩
  | case3 c r first rest hFirst ih =>
    rcases List.mem_cons.mp h with rfl | h
    · exact ⟨[], c :: r, rest, rfl, hFirst⟩
    · obtain ⟨before, s, rest, rfl, hRead⟩ := ih h
      exact ⟨c :: before, s, rest, rfl, hRead⟩
  | case4 c r _ ih =>
    obtain ⟨before, s, rest, rfl, hRead⟩ := ih h
    exact ⟨c :: before, s, rest, rfl, hRead⟩

/-- The search comes to the start of every spelling whose type does not start with a dollar: what it
passes over after an earlier annotation ends before. -/
theorem mem_scan_of_spelling {s : Spelling} {rest before : List Char} {skip : Nat}
    (hEnds : EndsSymbol rest) (hDollar : s.typeName.head? ≠ some '$') (hSkip : skip ≤ before.length) :
    (s.typeName, s.symbol) ∈ scan skip (before ++ (s.text ++ rest)) := by
  induction before generalizing skip with
  | nil =>
    obtain rfl : skip = 0 := Nat.le_zero.mp hSkip
    have hRead := s.readAt?_text_append hEnds
    rw [s.text_append] at hRead ⊢
    rw [List.nil_append, scan, hRead]
    exact List.mem_cons_self
  | cons c before ih =>
    cases skip with
    | succ k => exact ih (Nat.le_of_succ_le_succ hSkip)
    | zero =>
      rw [List.cons_append, scan]
      split
      next first after hFirst =>
        obtain ⟨first, hText, -, -⟩ := exists_spelling_of_readAt? hFirst
        have hStar := hText
        rw [first.text_append] at hStar
        obtain rfl := (List.cons.inj hStar).1
        have hLe := Spelling.length_le_of_later hText.symm hDollar
        refine List.mem_cons_of_mem _ (ih ?_)
        rw [List.length_append]
        omega
      next => exact ih (Nat.zero_le _)

theorem mem_findAll_iff {t : List Char} {found : List Char × List Char}
    (hDollar : found.1.head? ≠ some '$') :
    found ∈ findAll t ↔ ∃ before, ∃ s : Spelling, ∃ rest, t = before ++ s.text ++ rest ∧
      found = (s.typeName, s.symbol) ∧ EndsSymbol rest := by
  constructor
  · intro h
    obtain ⟨before, r, rest, rfl, hRead⟩ := exists_of_mem_scan h
    obtain ⟨s, rfl, rfl, hEnds⟩ := exists_spelling_of_readAt? hRead
    exact ⟨before, s, rest, by rw [List.append_assoc], rfl, hEnds⟩
  · rintro ⟨before, s, rest, rfl, rfl, hEnds⟩
    rw [List.append_assoc]
    exact mem_scan_of_spelling hEnds hDollar (Nat.zero_le _)

theorem head?_of_sameLetters {a b : List Char} (h : sameLetters a b = true)
    (ha : a.head? = some '$') : b.head? = some '$' := by
  have hHead := congrArg List.head? (sameLetters_iff.mp h)
  rw [List.head?_map, List.head?_map, ha] at hHead
  obtain ⟨c, hc, hDollar⟩ := Option.map_eq_some_iff.mp hHead.symm
  rcases lowerChar_eq_or c with hSame | ⟨_, hWord⟩
  · rw [hc, ← hSame, hDollar]
    rfl
  · rw [hDollar] at hWord
    exact absurd hWord (by decide +kernel)

/-- The text spells the annotation somewhere, in letters of either case. -/
def SpelledIn (a : Annotation) (t : List Char) : Prop :=
  ∃ before, ∃ s : Spelling, ∃ rest, t = before ++ s.text ++ rest ∧ EndsSymbol rest ∧
    sameLetters s.typeName a.typeName.toList = true ∧ sameLetters s.symbol a.symbol.toList = true

theorem EndsSymbol.append {rest r : List Char} (h : EndsSymbol rest) (hr : EndsSymbol r) :
    EndsSymbol (rest ++ r) := by
  cases rest with
  | nil => exact hr
  | cons c _ => exact h

/-- What follows a text does not change what it spells, unless it continues a symbol. -/
theorem SpelledIn.append {a : Annotation} {t : List Char} (h : a.SpelledIn t) {r : List Char}
    (hr : EndsSymbol r) : a.SpelledIn (t ++ r) := by
  obtain ⟨before, s, rest, rfl, hEnds, hSame⟩ := h
  exact ⟨before, s, rest ++ r, by rw [List.append_assoc _ rest], hEnds.append hr, hSame⟩

theorem exists_agrees_iff_spelledIn {a : Annotation} {t : List Char}
    (hDollar : a.typeName.toList.head? ≠ some '$') :
    (∃ found ∈ findAll t, a.agrees found = true) ↔ a.SpelledIn t := by
  constructor
  · rintro ⟨found, hFound, hAgrees⟩
    obtain ⟨hType, hSymbol⟩ := Bool.and_eq_true_iff.mp hAgrees
    have hNot : found.1.head? ≠ some '$' := fun h => hDollar (head?_of_sameLetters hType h)
    obtain ⟨before, s, rest, hText, rfl, hEnds⟩ := (mem_findAll_iff hNot).mp hFound
    exact ⟨before, s, rest, hText, hEnds, hType, hSymbol⟩
  · rintro ⟨before, s, rest, hText, hEnds, hType, hSymbol⟩
    have hNot : s.typeName.head? ≠ some '$' := fun h => hDollar (head?_of_sameLetters hType h)
    refine ⟨_, (mem_findAll_iff hNot).mpr ⟨before, s, rest, hText, rfl, hEnds⟩, ?_⟩
    exact Bool.and_eq_true_iff.mpr ⟨hType, hSymbol⟩

end Annotation

end DocWiring
