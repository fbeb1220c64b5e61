import DocWiring.Php.Lexeme
import Mathlib.Data.List.Basic
import Mathlib.Data.List.Find

/-! # Scanning up to a newline

Most scanners of the lexer stop at a newline as they do at the end of the text.  The others may go
over it, but those that end before a newline do not know what follows it.
-/

namespace DocWiring.Php

/-! ## Scanners that stop at a newline -/

theorem takeWhile_feed {p : Char → Bool} (hp : p '\n' = false) (w r : List Char) :
    (w ++ '\n' :: r).takeWhile p = w.takeWhile p := by
  induction w with
  | nil => simp [hp]
  | cons c w ih =>
    rw [List.cons_append, List.takeWhile_cons, List.takeWhile_cons, ih]

theorem drop_takeWhile_feed (p : Char → Bool) (w r : List Char) :
    (w ++ '\n' :: r).drop (w.takeWhile p).length = w.drop (w.takeWhile p).length ++ '\n' :: r :=
  List.drop_append_of_le_length (List.takeWhile_prefix p).length_le

theorem startsName_feed (w r : List Char) : startsName (w ++ '\n' :: r) = startsName w := by
  cases w with
  | nil => exact (by decide : isNameStart '\n' = false)
  | cons c w => rfl

theorem nameWidth_feed (w r : List Char) : nameWidth (w ++ '\n' :: r) = nameWidth w := by
  rw [nameWidth, takeWhile_feed (by decide), nameWidth]

/-- Fuel for every character is enough. -/
theorem furtherWidth_feed {n m : Nat} (w r : List Char) (hn : w.length ≤ n) (hm : w.length ≤ m) :
    furtherWidth n (w ++ '\n' :: r) = furtherWidth m w := by
  induction n generalizing w m with
  | zero =>
    obtain rfl : w = [] := List.eq_nil_of_length_eq_zero (by omega)
    cases m <;> rfl
  | succ n ih =>
    cases m with
    | zero =>
      obtain rfl : w = [] := List.eq_nil_of_length_eq_zero (by omega)
      rfl
    | succ m =>
      cases w with
      | nil => rfl
      | cons c w =>
        by_cases hc : c = '\\'
        · subst hc
          rw [List.cons_append, furtherWidth, furtherWidth, startsName_feed, nameWidth_feed]
          dsimp only
          have hDrop : (w ++ '\n' :: r).drop (nameWidth w) = w.drop (nameWidth w) ++ '\n' :: r :=
            drop_takeWhile_feed isNamePart w r
          have hLength : (w.drop (nameWidth w)).length ≤ w.length := by simp
          rw [List.length_cons] at hn hm
          rw [hDrop, ih (m := m) (w.drop (nameWidth w)) (by omega) (by omega)]
        · rw [List.cons_append, furtherWidth, furtherWidth] <;> simp_all

theorem qualifiedWidth_feed (w r : List Char) :
    qualifiedWidth (w ++ '\n' :: r) = qualifiedWidth w := by
  have hDrop : (w ++ '\n' :: r).drop (nameWidth w) = w.drop (nameWidth w) ++ '\n' :: r :=
    drop_takeWhile_feed isNamePart w r
  rw [qualifiedWidth, qualifiedWidth, nameWidth_feed, hDrop,
    furtherWidth_feed (m := w.length) _ _ (by simp; omega) (by simp)]

theorem digitsWidth_feed {isDigit : Char → Bool} (h : isDigit '\n' = false) (w r : List Char) :
    digitsWidth isDigit (w ++ '\n' :: r) = digitsWidth isDigit w := by
  rw [digitsWidth, takeWhile_feed (by simp [h]), digitsWidth]

theorem digitsWidth_le (isDigit : Char → Bool) (cs : List Char) :
    digitsWidth isDigit cs ≤ cs.length :=
  (List.takeWhile_prefix _).length_le

theorem exponentWidth_feed (w r : List Char) :
    exponentWidth (w ++ '\n' :: r) = exponentWidth w := by
  have hDigits (d : Char) (w : List Char) : digitsWidth Char.isDigit (d :: (w ++ '\n' :: r)) =
      digitsWidth Char.isDigit (d :: w) :=
    digitsWidth_feed (by decide : Char.isDigit '\n' = false) (d :: w) r
  cases w with
  | nil => simp [exponentWidth]
  | cons e w =>
    simp only [List.cons_append, exponentWidth]
    split
    next =>
      cases w with
      | nil => simp [Char.isDigit]
      | cons s w =>
        cases hSign : s == '+' || s == '-' with
        | true =>
          cases w with
          | nil => simp [hSign, Char.isDigit]
          | cons d w => simp [hSign, hDigits]
        | false => simp [hSign, hDigits]
    next => rfl

def fractionWidth : List Char → Nat
  | '.' :: '.' :: _ => 0
  | '.' :: r => 1 + digitsWidth Char.isDigit r
  | _ => 0

theorem decimalWidth_eq (cs : List Char) : decimalWidth cs =
    digitsWidth Char.isDigit cs + fractionWidth (cs.drop (digitsWidth Char.isDigit cs)) +
      exponentWidth (cs.drop (digitsWidth Char.isDigit cs +
        fractionWidth (cs.drop (digitsWidth Char.isDigit cs)))) :=
  rfl

theorem fractionWidth_le (cs : List Char) : fractionWidth cs ≤ cs.length := by
  unfold fractionWidth
  split
  · exact Nat.zero_le _
  next r _ =>
    have hDigits := digitsWidth_le Char.isDigit r
    simp
    omega
  · exact Nat.zero_le _

theorem fractionWidth_feed (w r : List Char) :
    fractionWidth (w ++ '\n' :: r) = fractionWidth w := by
  cases w with
  | nil => rfl
  | cons c w =>
    by_cases hc : c = '.'
    · subst hc
      cases w with
      | nil => rfl
      | cons d w =>
        by_cases hd : d = '.'
        · subst hd
          rfl
        · have hDigits := digitsWidth_feed (by decide : Char.isDigit '\n' = false) (d :: w) r
          simp_all [fractionWidth]
    · simp [fractionWidth, hc]

theorem decimalWidth_feed (w r : List Char) :
    decimalWidth (w ++ '\n' :: r) = decimalWidth w := by
  have hWhole := digitsWidth_le Char.isDigit w
  have hFraction := fractionWidth_le (w.drop (digitsWidth Char.isDigit w))
  rw [List.length_drop] at hFraction
  rw [decimalWidth_eq, decimalWidth_eq, digitsWidth_feed (by decide),
    List.drop_append_of_le_length hWhole, fractionWidth_feed,
    List.drop_append_of_le_length (by omega), exponentWidth_feed]

theorem numberWidth_feed (w r : List Char) :
    numberWidth (w ++ '\n' :: r) = numberWidth w := by
  have hDecimal := decimalWidth_feed w r
  rcases w with _ | ⟨a, _ | ⟨x, _ | ⟨d, w⟩⟩⟩
  · simpa [numberWidth] using hDecimal
  · by_cases ha : a = '0'
    · subst ha
      cases r <;> simpa [numberWidth] using hDecimal
    · simpa [numberWidth, ha] using hDecimal
  · by_cases ha : a = '0'
    · subst ha
      simpa [numberWidth, isHexDigit, Char.isDigit] using hDecimal
    · simpa [numberWidth, ha] using hDecimal
  · by_cases ha : a = '0'
    · subst ha
      have hHex : digitsWidth isHexDigit (d :: (w ++ '\n' :: r)) = digitsWidth isHexDigit (d :: w) :=
        digitsWidth_feed (by decide) (d :: w) r
      have hDigits : digitsWidth Char.isDigit (d :: (w ++ '\n' :: r)) =
          digitsWidth Char.isDigit (d :: w) := digitsWidth_feed (by decide) (d :: w) r
      simp only [List.cons_append] at hDecimal
      simp only [List.cons_append, numberWidth, hHex, hDigits, hDecimal]
    · simpa [numberWidth, ha] using hDecimal

theorem lineCommentWidth_feed (w r : List Char) :
    lineCommentWidth (w ++ '\n' :: r) = lineCommentWidth w := by
  fun_induction lineCommentWidth w with
  | case1 => rfl
  | case2 => rfl
  | case3 => rfl
  | case4 => rfl
  | case5 c w hFeed hReturn hTag ih =>
    rw [List.cons_append, lineCommentWidth, ih]
    · exact hFeed
    · exact hReturn
    · intro tail hc hTail
      cases w with
      | nil => cases hTail
      | cons d w => exact hTag w hc (by rw [(List.cons.inj hTail).1])

theorem isPrefixOf_feed {s : List Char} (h : '\n' ∉ s) (w r : List Char) :
    s.isPrefixOf (w ++ '\n' :: r) = s.isPrefixOf w := by
  induction s generalizing w with
  | nil => simp
  | cons c s ih =>
    obtain ⟨hc, hs⟩ : '\n' ≠ c ∧ '\n' ∉ s := by simpa using h
    cases w with
    | nil => simp [List.isPrefixOf, hc.symm]
    | cons d w => simp [List.isPrefixOf, ih hs]

theorem startsLabel_feed {label : List Char} (h : '\n' ∉ label) (w r : List Char) :
    startsLabel label (w ++ '\n' :: r) = startsLabel label w := by
  rw [startsLabel, startsLabel, isPrefixOf_feed h]
  cases hInitial : label.isPrefixOf w with
  | false => rfl
  | true =>
    obtain ⟨t, rfl⟩ := List.isPrefixOf_iff_prefix.mp hInitial
    rw [List.append_assoc, List.drop_left, List.drop_left]
    cases t with
    | nil => exact congrArg _ (by decide : (!isNamePart '\n') = true)
    | cons c t => rfl

theorem closingLabelWidth?_feed {label : List Char} (h : '\n' ∉ label) (w r : List Char) :
    closingLabelWidth? label (w ++ '\n' :: r) = closingLabelWidth? label w := by
  rw [closingLabelWidth?, closingLabelWidth?, takeWhile_feed (by decide), drop_takeWhile_feed,
    startsLabel_feed h]

theorem symbolWidth?_feed (w r : List Char) :
    symbolWidth? (w ++ '\n' :: r) = symbolWidth? w := by
  have hLong : (longSymbols.find? fun s => s.toList.isPrefixOf (w ++ '\n' :: r)) =
      longSymbols.find? fun s => s.toList.isPrefixOf w := by
    have hFree : ∀ s ∈ longSymbols, '\n' ∉ s.toList := by decide
    exact List.find?_congr fun s hs => isPrefixOf_feed (hFree s hs) w r
  unfold symbolWidth?
  rw [hLong]
  split
  · rfl
  · cases w with
    | nil => exact if_neg (by decide)
    | cons c w => rfl

theorem startsEmbedded_feed (w r : List Char) :
    startsEmbedded (w ++ '\n' :: r) = startsEmbedded w := by
  cases w with
  | nil => rfl
  | cons c w =>
    have hName := startsName_feed w r
    by_cases hBrace : c = '{'
    · subst hBrace
      cases w with
      | nil => rfl
      | cons d w => by_cases hd : d = '$' <;> simp [startsEmbedded, hd]
    · by_cases hDollar : c = '$'
      · subst hDollar
        cases w with
        | nil => exact hName
        | cons d w =>
          by_cases hd : d = '{'
          · subst hd
            rfl
          · simpa [startsEmbedded, hd] using hName
      · simp [startsEmbedded, hBrace, hDollar]

theorem eolWidth_feed (w r : List Char) :
    eolWidth (w ++ '\n' :: r) = eolWidth (w ++ ['\n']) := by
  rcases w with _ | ⟨c, _ | ⟨d, w⟩⟩
  · rfl
  · by_cases hReturn : c = '\r' <;> by_cases hFeed : c = '\n' <;> simp_all [eolWidth]
  · by_cases hReturn : c = '\r' <;> by_cases hFeed : c = '\n' <;> by_cases hNext : d = '\n' <;>
      simp_all [eolWidth]

theorem lineWidth_feed (w r : List Char) :
    lineWidth (w ++ '\n' :: r) = lineWidth (w ++ ['\n']) := by
  fun_induction lineWidth w <;> simp_all [lineWidth]

/-- A character that starts no pair with a backslash is none. -/
theorem ne_slash_of_stop {c : Char} {w : List Char} (hOne : c = '\\' → w = [] → False)
    (hPair : ∀ d t, c = '\\' → w = d :: t → False) : c ≠ '\\' := by
  intro hc
  cases w with
  | nil => exact hOne hc rfl
  | cons d t => exact hPair d t hc rfl

theorem heredocTextWidth_of_other {c : Char} (hFeed : c ≠ '\n') (hSlash : c ≠ '\\') (r : List Char) :
    heredocTextWidth (c :: r) =
      if startsEmbedded (c :: r) then 0 else 1 + heredocTextWidth r := by
  rw [heredocTextWidth]
  · exact hFeed
  · exact fun h => absurd h hSlash
  · exact fun _ _ h => absurd h hSlash

theorem heredocTextWidth_feed (w r : List Char) :
    heredocTextWidth (w ++ '\n' :: r) = heredocTextWidth (w ++ ['\n']) := by
  fun_induction heredocTextWidth w with
  | case1 => rfl
  | case2 => rfl
  | case3 => simp [heredocTextWidth]
  | case4 c w hFeed => simp [heredocTextWidth, hFeed]
  | case5 c w hFeed ih => simp [heredocTextWidth, hFeed, ih]
  | case6 c w hFeed hOne hPair hEmbedded =>
    have hSlash := ne_slash_of_stop hOne hPair
    rw [List.cons_append, List.cons_append, heredocTextWidth_of_other hFeed hSlash,
      heredocTextWidth_of_other hFeed hSlash, ← List.cons_append, ← List.cons_append,
      startsEmbedded_feed, startsEmbedded_feed, if_pos hEmbedded, if_pos hEmbedded]
  | case7 c w hFeed hOne hPair hEmbedded ih =>
    have hSlash := ne_slash_of_stop hOne hPair
    rw [List.cons_append, List.cons_append, heredocTextWidth_of_other hFeed hSlash,
      heredocTextWidth_of_other hFeed hSlash, ← List.cons_append, ← List.cons_append,
      startsEmbedded_feed, startsEmbedded_feed, if_neg hEmbedded, if_neg hEmbedded, ih]

/-- What follows the quote of a heredoc, or its missing quote. -/
def labelOpening? (gap : Nat) (quote : Option Char) (labelled : List Char) : Option (Nat × Mode) :=
  if startsName labelled then
    let label := labelled.takeWhile isNamePart
    let afterLabel := labelled.drop label.length
    let closed :=
      match quote with
      | some q => afterLabel.head? == some q
      | none => true
    let quoteWidth := if quote.isSome then 1 else 0
    let eol := eolWidth (afterLabel.drop quoteWidth)
    if closed && eol != 0 then
      let mode := if quote == some '\'' then Mode.nowdoc label else .heredoc label true
      some (gap + 2 * quoteWidth + label.length + eol, mode)
    else none
  else none

/-- The quote before the label of a heredoc, and what follows it. -/
def openingQuote : List Char → Option Char × List Char
  | '\'' :: r => (some '\'', r)
  | '"' :: r => (some '"', r)
  | r => (none, r)

theorem heredocOpening?_eq (cs : List Char) : heredocOpening? cs =
    labelOpening? (cs.takeWhile fun c => c == ' ' || c == '\t').length
      (openingQuote (cs.drop (cs.takeWhile fun c => c == ' ' || c == '\t').length)).1
      (openingQuote (cs.drop (cs.takeWhile fun c => c == ' ' || c == '\t').length)).2 :=
  rfl

theorem openingQuote_feed (w r : List Char) : openingQuote (w ++ '\n' :: r) =
    ((openingQuote w).1, (openingQuote w).2 ++ '\n' :: r) := by
  cases w with
  | nil => rfl
  | cons c w =>
    by_cases hSingle : c = '\''
    · subst hSingle
      rfl
    · by_cases hDouble : c = '"'
      · subst hDouble
        rfl
      · simp [openingQuote, hSingle, hDouble]

theorem openingQuote_ne_feed (w : List Char) : (openingQuote w).1 ≠ some '\n' := by
  unfold openingQuote
  split <;> simp

theorem labelOpening?_feed (gap : Nat) {quote : Option Char} (hQuote : quote ≠ some '\n')
    (w r : List Char) : labelOpening? gap quote (w ++ '\n' :: r) =
      labelOpening? gap quote (w ++ ['\n']) := by
  unfold labelOpening?
  simp only [startsName_feed, takeWhile_feed (by decide : isNamePart '\n' = false),
    drop_takeWhile_feed]
  generalize w.drop (w.takeWhile isNamePart).length = u
  cases quote with
  | none => simp [eolWidth_feed u r]
  | some q =>
    cases u with
    | nil =>
      have hFeed : ('\n' == q) = false := by
        rw [beq_eq_false_iff_ne]
        exact fun h => hQuote (by rw [h])
      simp [hFeed]
    | cons c u => simp [eolWidth_feed u r]

theorem heredocOpening?_feed (w r : List Char) :
    heredocOpening? (w ++ '\n' :: r) = heredocOpening? (w ++ ['\n']) := by
  have hGap := takeWhile_feed (p := fun c => c == ' ' || c == '\t') (by decide) w
  rw [heredocOpening?_eq, heredocOpening?_eq, hGap, hGap, drop_takeWhile_feed, drop_takeWhile_feed,
    openingQuote_feed, openingQuote_feed]
  exact labelOpening?_feed _ (openingQuote_ne_feed _) _ r

/-! ## Scanners that go over newlines -/

theorem takeWhile_of_length_le {p : Char → Bool} (hp : p '\n' = true) {w r : List Char}
    (h : ((w ++ '\n' :: r).takeWhile p).length ≤ w.length) (r' : List Char) :
    (w ++ '\n' :: r').takeWhile p = (w ++ '\n' :: r).takeWhile p := by
  induction w with
  | nil => simp [hp] at h
  | cons c w ih =>
    rw [List.cons_append, List.takeWhile_cons] at h
    rw [List.cons_append, List.cons_append, List.takeWhile_cons, List.takeWhile_cons]
    split
    next hc =>
      rw [if_pos hc, List.length_cons, List.length_cons] at h
      rw [ih (by omega)]
    next => rfl

theorem singleQuotedWidth?_of_other {c : Char} (hQuote : c ≠ '\'') (hSlash : c ≠ '\\')
    (r : List Char) : singleQuotedWidth? (c :: r) = (singleQuotedWidth? r).map (· + 1) := by
  rw [singleQuotedWidth?]
  · exact hQuote
  · exact fun _ _ h => absurd h hSlash

theorem singleQuotedWidth?_of_le {w r : List Char} {n : Nat}
    (h : singleQuotedWidth? (w ++ '\n' :: r) = some n) (hn : n ≤ w.length) (r' : List Char) :
    singleQuotedWidth? (w ++ '\n' :: r') = some n := by
  fun_induction singleQuotedWidth? w generalizing n with
  | case1 =>
    rw [List.nil_append, singleQuotedWidth?_of_other (by decide) (by decide)] at h
    obtain ⟨m, _, rfl⟩ := Option.map_eq_some_iff.mp h
    simp at hn
  | case2 => exact h
  | case3 c w ih =>
    simp only [List.cons_append, singleQuotedWidth?] at h ⊢
    obtain ⟨m, hm, rfl⟩ := Option.map_eq_some_iff.mp h
    rw [ih hm (by simpa using hn)]
    rfl
  | case4 c w hQuote hPair ih =>
    by_cases hSlash : c = '\\'
    · subst hSlash
      cases w with
      | nil =>
        simp only [List.cons_append, List.nil_append, singleQuotedWidth?] at h
        obtain ⟨m, _, rfl⟩ := Option.map_eq_some_iff.mp h
        simp at hn
      | cons d w => exact (hPair d w rfl rfl).elim
    · rw [List.cons_append, singleQuotedWidth?_of_other hQuote hSlash] at h ⊢
      obtain ⟨m, hm, rfl⟩ := Option.map_eq_some_iff.mp h
      rw [ih hm (by simpa using hn)]
      rfl

theorem blockCommentWidth?_cons (c : Char) (r : List Char) : blockCommentWidth? (c :: r) =
    if c = '*' ∧ r.head? = some '/' then some 2 else (blockCommentWidth? r).map (· + 1) := by
  split
  next h =>
    obtain ⟨rfl, hHead⟩ := h
    obtain ⟨t, rfl⟩ := List.head?_eq_some_iff.mp hHead
    rfl
  next h =>
    rw [blockCommentWidth?]
    rintro t rfl rfl
    exact h ⟨rfl, rfl⟩

theorem two_le_of_blockCommentWidth? {cs : List Char} {n : Nat}
    (h : blockCommentWidth? cs = some n) : 2 ≤ n := by
  induction cs generalizing n with
  | nil => cases h
  | cons c r ih =>
    rw [blockCommentWidth?_cons] at h
    split at h
    next => exact Nat.le_of_eq (Option.some.inj h)
    next =>
      obtain ⟨m, hm, rfl⟩ := Option.map_eq_some_iff.mp h
      exact Nat.le_succ_of_le (ih hm)

theorem head?_feed (w r r' : List Char) :
    (w ++ '\n' :: r').head? = (w ++ '\n' :: r).head? := by
  cases w <;> rfl

theorem blockCommentWidth?_of_le {w r : List Char} {n : Nat}
    (h : blockCommentWidth? (w ++ '\n' :: r) = some n) (hn : n ≤ w.length) (r' : List Char) :
    blockCommentWidth? (w ++ '\n' :: r') = some n := by
  induction w generalizing n with
  | nil =>
    have hTwo := two_le_of_blockCommentWidth? h
    simp at hn
    omega
  | cons c w ih =>
    rw [List.cons_append, blockCommentWidth?_cons] at h ⊢
    rw [head?_feed w r r']
    split at h
    next hClose => rw [if_pos hClose, h]
    next hClose =>
      obtain ⟨m, hm, rfl⟩ := Option.map_eq_some_iff.mp h
      rw [if_neg hClose, ih hm (by simpa using hn)]
      rfl

theorem htmlWidth_cons (c : Char) (r : List Char) : htmlWidth (c :: r) =
    if c = '<' ∧ r.head? = some '?' then 0 else 1 + htmlWidth r := by
  split
  next h =>
    obtain ⟨rfl, hHead⟩ := h
    obtain ⟨t, rfl⟩ := List.head?_eq_some_iff.mp hHead
    rfl
  next h =>
    rw [htmlWidth]
    rintro t rfl rfl
    exact h ⟨rfl, rfl⟩

theorem htmlWidth_of_le {w r : List Char} (h : htmlWidth (w ++ '\n' :: r) ≤ w.length)
    (r' : List Char) : htmlWidth (w ++ '\n' :: r') = htmlWidth (w ++ '\n' :: r) := by
  induction w with
  | nil =>
    rw [List.nil_append, htmlWidth_cons, if_neg (by simp)] at h
    simp at h
  | cons c w ih =>
    rw [List.cons_append, htmlWidth_cons] at h
    rw [List.cons_append, List.cons_append, htmlWidth_cons, htmlWidth_cons, head?_feed w r r']
    split
    next => rfl
    next hTag =>
      rw [if_neg hTag, List.length_cons] at h
      rw [ih (by omega)]

theorem quotedTextWidth_of_other {c : Char} (hSlash : c ≠ '\\') (quote : Char) (r : List Char) :
    quotedTextWidth quote (c :: r) =
      if c == quote || startsEmbedded (c :: r) then 0 else 1 + quotedTextWidth quote r := by
  rw [quotedTextWidth]
  · exact fun h => absurd h hSlash
  · exact fun _ _ h => absurd h hSlash

theorem quotedTextWidth_of_le {quote : Char} {w r : List Char}
    (h : quotedTextWidth quote (w ++ '\n' :: r) ≤ w.length) (r' : List Char) :
    quotedTextWidth quote (w ++ '\n' :: r') = quotedTextWidth quote (w ++ '\n' :: r) := by
  fun_induction quotedTextWidth quote w with
  | case1 =>
    have hEmbedded (t : List Char) : startsEmbedded ('\n' :: t) = false := rfl
    rw [List.nil_append, quotedTextWidth_of_other (by decide), hEmbedded] at h
    rw [List.nil_append, List.nil_append, quotedTextWidth_of_other (by decide),
      quotedTextWidth_of_other (by decide), hEmbedded, hEmbedded]
    split
    next => rfl
    next hQuote =>
      rw [if_neg hQuote] at h
      simp at h
  | case2 =>
    simp only [List.cons_append, List.nil_append, quotedTextWidth, List.length_singleton] at h
    omega
  | case3 c w ih =>
    simp only [List.cons_append, quotedTextWidth, List.length_cons] at h ⊢
    rw [ih (by omega)]
  | case4 c w hOne hPair hStop =>
    have hSlash := ne_slash_of_stop hOne hPair
    rw [List.cons_append, List.cons_append, quotedTextWidth_of_other hSlash,
      quotedTextWidth_of_other hSlash, ← List.cons_append, ← List.cons_append, startsEmbedded_feed,
      startsEmbedded_feed, if_pos hStop, if_pos hStop]
  | case5 c w hOne hPair hStop ih =>
    have hSlash := ne_slash_of_stop hOne hPair
    rw [List.cons_append, quotedTextWidth_of_other hSlash, ← List.cons_append, startsEmbedded_feed,
      if_neg hStop, List.length_cons] at h
    rw [List.cons_append, List.cons_append, quotedTextWidth_of_other hSlash,
      quotedTextWidth_of_other hSlash, ← List.cons_append, ← List.cons_append, startsEmbedded_feed,
      startsEmbedded_feed, if_neg hStop, if_neg hStop, ih (by omega)]

end DocWiring.Php
