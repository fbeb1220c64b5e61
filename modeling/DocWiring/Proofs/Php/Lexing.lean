import DocWiring.Proofs.Php.Scanning
import Mathlib.Data.List.TakeWhile

/-! # Lexing up to a newline

A lexeme that ends before a newline is the same lexeme whatever follows that newline.  So the lexemes
before a newline in white space stay what they are when the text after it changes.

What a lexeme can be is said once for code and once for the rest of a file.
-/

namespace DocWiring.Php

/-- A label holds no newline. -/
def Mode.Plain : Mode → Prop
  | .heredoc label _ => '\n' ∉ label
  | .nowdoc label => '\n' ∉ label
  | _ => True

/-! ## Code -/

/-- A lexeme in code that is no white space, no comment and no brace that closes. -/
def otherStep? (mode : Mode) (outer : List Mode) (c : Char) (r : List Char) : Option Step :=
  match textStep? mode outer 0 (c :: r) with
  | some step => some step
  | none =>
    if c == '\'' then none
    else if c == '$' && startsName r then some ⟨.variable, 1 + nameWidth r, mode :: outer⟩
    else if isNameStart c then
      match (if c == 'b' || c == 'B' then textStep? mode outer 1 r else none) with
      | some step => some step
      | none => some ⟨.name, qualifiedWidth (c :: r), mode :: outer⟩
    else if c == '\\' && startsName r then
      some ⟨.name, furtherWidth (c :: r).length (c :: r), mode :: outer⟩
    else if c.isDigit || (c == '.' && (r.head?.map Char.isDigit).getD false) then
      some ⟨.number, numberWidth (c :: r), mode :: outer⟩
    else
      (symbolWidth? (c :: r)).map fun w =>
        ⟨.symbol, w, if w = 1 then afterSymbol mode outer c else mode :: outer⟩

theorem codeStep?_cons (mode : Mode) (outer : List Mode) (c : Char) (r : List Char) :
    codeStep? mode outer (c :: r) =
      if c = '?' ∧ r.head? = some '>' then
        if mode = .code then some ⟨.closeTag, 2, .html :: outer⟩ else none
      else if c = '}' then
        if mode = .embedded 0 then some ⟨.embedClose, 1, outer⟩
        else some ⟨.symbol, 1, afterSymbol mode outer '}'⟩
      else if c = '#' then
        if r.head? = some '[' then some ⟨.symbol, 2, mode :: outer⟩
        else some ⟨.comment, 1 + lineCommentWidth r, mode :: outer⟩
      else if c = '/' ∧ r.head? = some '/' then
        some ⟨.comment, 2 + lineCommentWidth r.tail, mode :: outer⟩
      else if c = '/' ∧ r.head? = some '*' then
        (blockCommentWidth? r.tail).map fun w => ⟨.comment, 2 + w, mode :: outer⟩
      else if c = '\x60' then some ⟨.templateOpen, 1, .quoted '\x60' :: mode :: outer⟩
      else if isSpace c then some ⟨.blank, 1 + (r.takeWhile isSpace).length, mode :: outer⟩
      else otherStep? mode outer c r := by
  by_cases hTag : c = '?' ∧ r.head? = some '>'
  · obtain ⟨rfl, hHead⟩ := hTag
    obtain ⟨t, rfl⟩ := List.head?_eq_some_iff.mp hHead
    rfl
  by_cases hBrace : c = '}'
  · subst hBrace
    rfl
  by_cases hHash : c = '#'
  · subst hHash
    cases r with
    | nil => rfl
    | cons d r =>
      by_cases hd : d = '['
      · subst hd
        rfl
      · simp [codeStep?, hd]
  by_cases hSlashes : c = '/' ∧ r.head? = some '/'
  · obtain ⟨rfl, hHead⟩ := hSlashes
    obtain ⟨t, rfl⟩ := List.head?_eq_some_iff.mp hHead
    rfl
  by_cases hStar : c = '/' ∧ r.head? = some '*'
  · obtain ⟨rfl, hHead⟩ := hStar
    obtain ⟨t, rfl⟩ := List.head?_eq_some_iff.mp hHead
    rfl
  by_cases hTick : c = '\x60'
  · subst hTick
    rfl
  rw [if_neg hTag, if_neg hBrace, if_neg hHash, if_neg hSlashes, if_neg hStar, if_neg hTick]
  rw [codeStep?]
  · rfl
  · rintro t rfl rfl
    exact hTag ⟨rfl, rfl⟩
  · exact hBrace
  · rintro t rfl rfl
    exact hHash rfl
  · exact hHash
  · rintro t rfl rfl
    exact hSlashes ⟨rfl, rfl⟩
  · rintro t rfl rfl
    exact hStar ⟨rfl, rfl⟩
  · exact hTick

theorem textStep?_cons (mode : Mode) (outer : List Mode) (skip : Nat) (c : Char) (r : List Char) :
    textStep? mode outer skip (c :: r) =
      if c = '\'' then
        (singleQuotedWidth? r).map fun w => ⟨.string, skip + 1 + w, mode :: outer⟩
      else if c = '"' then some ⟨.templateOpen, skip + 1, .quoted '"' :: mode :: outer⟩
      else if c = '<' ∧ r.head? = some '<' ∧ r.tail.head? = some '<' then
        (heredocOpening? r.tail.tail).map fun (w, inner) =>
          ⟨.templateOpen, skip + 3 + w, inner :: mode :: outer⟩
      else none := by
  by_cases hSingle : c = '\''
  · subst hSingle
    rfl
  by_cases hDouble : c = '"'
  · subst hDouble
    rfl
  rw [if_neg hSingle, if_neg hDouble]
  split
  next h =>
    obtain ⟨rfl, hHead, hNext⟩ := h
    obtain ⟨t, rfl⟩ := List.head?_eq_some_iff.mp hHead
    obtain ⟨u, rfl⟩ := List.head?_eq_some_iff.mp hNext
    rfl
  next h =>
    rw [textStep?]
    · intro t ht
      exact hSingle (List.cons.inj ht).1
    · intro t ht
      exact hDouble (List.cons.inj ht).1
    · rintro t ht
      obtain ⟨rfl, rfl⟩ := List.cons.inj ht
      exact h ⟨rfl, rfl, rfl⟩

/-- Two signs that open a heredoc after a first one stand before any newline. -/
theorem heredocOpening?_tail {w r : List Char} (h : (w ++ '\n' :: r).head? = some '<' ∧
    (w ++ '\n' :: r).tail.head? = some '<') (r' : List Char) :
    heredocOpening? (w ++ '\n' :: r').tail.tail = heredocOpening? (w ++ '\n' :: r).tail.tail := by
  rcases w with _ | ⟨a, _ | ⟨b, w⟩⟩
  · simp at h
  · simp at h
  · exact (heredocOpening?_feed w r').trans (heredocOpening?_feed w r).symm

theorem tail_head?_feed {w r : List Char} (h : (w ++ '\n' :: r).head? = some '<') (r' : List Char) :
    (w ++ '\n' :: r').tail.head? = (w ++ '\n' :: r).tail.head? := by
  rcases w with _ | ⟨a, w⟩
  · simp at h
  · exact head?_feed w r r'

/-- A text in code that ends before a newline is the same text whatever follows. -/
theorem textStep?_of_le {mode : Mode} {outer : List Mode} {skip : Nat} {w r : List Char} {s : Step}
    (h : textStep? mode outer skip (w ++ '\n' :: r) = some s) (hWidth : s.width ≤ skip + w.length)
    (r' : List Char) : textStep? mode outer skip (w ++ '\n' :: r') = some s := by
  cases w with
  | nil =>
    rw [List.nil_append, textStep?_cons, if_neg (by decide), if_neg (by decide),
      if_neg (by simp)] at h
    cases h
  | cons c w =>
    rw [List.cons_append, textStep?_cons] at h
    rw [List.cons_append, textStep?_cons]
    split at h
    next hQuote =>
      obtain ⟨n, hn, rfl⟩ := Option.map_eq_some_iff.mp h
      have hLe : skip + 1 + n ≤ skip + (w.length + 1) := hWidth
      rw [if_pos hQuote, singleQuotedWidth?_of_le hn (by omega) r']
      rfl
    next hSingle =>
      rw [if_neg hSingle]
      split at h
      next hDouble => rw [if_pos hDouble, h]
      next hDouble =>
        rw [if_neg hDouble]
        split at h
        next hHeredoc =>
          obtain ⟨hc, hHead, hTail⟩ := hHeredoc
          rw [if_pos ⟨hc, (head?_feed w r r').trans hHead, (tail_head?_feed hHead r').trans hTail⟩,
            heredocOpening?_tail ⟨hHead, hTail⟩ r', h]
        next => cases h

/-- Where no text starts, none starts whatever follows a newline, unless a quote is left open. -/
theorem textStep?_eq_none {mode : Mode} {outer : List Mode} {skip : Nat} {w r : List Char}
    (hQuote : w.head? ≠ some '\'')
    (h : textStep? mode outer skip (w ++ '\n' :: r) = none) (r' : List Char) :
    textStep? mode outer skip (w ++ '\n' :: r') = none := by
  cases w with
  | nil => rw [List.nil_append, textStep?_cons, if_neg (by decide), if_neg (by decide),
      if_neg (by simp)]
  | cons c w =>
    rw [List.cons_append, textStep?_cons] at h
    rw [List.cons_append, textStep?_cons]
    have hSingle : c ≠ '\'' := by simpa using hQuote
    rw [if_neg hSingle] at h ⊢
    split at h
    next => cases h
    next hDouble =>
      rw [if_neg hDouble]
      split
      next hHeredoc =>
        obtain ⟨hc, hHead, hTail⟩ := hHeredoc
        rw [if_pos ⟨hc, (head?_feed w r' r).trans hHead, (tail_head?_feed hHead r).trans hTail⟩,
          heredocOpening?_tail ⟨hHead, hTail⟩ r] at h
        exact h
      next => rfl

/-- No code goes on with a quote that is left open. -/
theorem codeStep?_quote {mode : Mode} {outer : List Mode} {skip : Nat} {r : List Char}
    (h : textStep? mode outer skip ('\'' :: r) = none) :
    codeStep? mode outer ('\'' :: r) = none := by
  have hWidth : singleQuotedWidth? r = none := by
    simpa [textStep?] using h
  rw [codeStep?_cons, otherStep?, textStep?_cons, hWidth]
  simp [isSpace]

theorem qualifiedWidth_quote {c : Char} (hc : isNameStart c = true) (r : List Char) :
    qualifiedWidth (c :: '\'' :: r) = 1 := by
  have hPart : isNamePart c = true := by rw [isNamePart, hc, Bool.true_or]
  have hQuote : isNamePart '\'' = false := by decide
  have hName : nameWidth (c :: '\'' :: r) = 1 := by
    simp [nameWidth, hPart, hQuote]
  have hFurther (n : Nat) : furtherWidth n ('\'' :: r) = 0 := by
    cases n with
    | zero => rfl
    | succ n => rw [furtherWidth]; simp
  rw [qualifiedWidth, hName]
  exact congrArg (1 + ·) (hFurther _)

/-- A binary prefix is one if a text follows, and else the name goes on. -/
theorem prefixed_of_le {mode : Mode} {outer : List Mode} {c : Char} {w r : List Char}
    (hc : isNameStart c = true) {s : Step}
    (h : (match (if c == 'b' || c == 'B' then textStep? mode outer 1 (w ++ '\n' :: r) else none) with
      | some step => some step
      | none => some ⟨.name, qualifiedWidth (c :: (w ++ '\n' :: r)), mode :: outer⟩) = some s)
    (hWidth : s.width ≤ w.length + 1)
    (hNext : s.width = 1 → s.modes = mode :: outer →
      (codeStep? mode outer (w ++ '\n' :: r)).isSome) (r' : List Char) :
    (match (if c == 'b' || c == 'B' then textStep? mode outer 1 (w ++ '\n' :: r') else none) with
      | some step => some step
      | none => some ⟨.name, qualifiedWidth (c :: (w ++ '\n' :: r')), mode :: outer⟩) = some s := by
  have hName := qualifiedWidth_feed (c :: w)
  simp only [List.cons_append] at hName
  rw [hName] at h ⊢
  cases hPrefix : c == 'b' || c == 'B' with
  | false => simpa [hPrefix] using h
  | true =>
    rw [hPrefix, if_pos rfl] at h
    rw [if_pos rfl]
    split at h
    next step hStep =>
      obtain rfl := Option.some.inj h
      rw [textStep?_of_le hStep (by omega) r']
    next hNone =>
      by_cases hQuote : w.head? = some '\''
      · obtain ⟨t, rfl⟩ := List.head?_eq_some_iff.mp hQuote
        obtain rfl := Option.some.inj h
        have hSome := hNext (qualifiedWidth_quote hc t) rfl
        have hShut := codeStep?_quote (r := t ++ '\n' :: r) hNone
        rw [List.cons_append, hShut] at hSome
        cases hSome
      · rw [textStep?_eq_none hQuote hNone r', h]

theorem otherStep?_of_le {mode : Mode} {outer : List Mode} {c : Char} {w r : List Char} {s : Step}
    (h : otherStep? mode outer c (w ++ '\n' :: r) = some s) (hWidth : s.width ≤ w.length + 1)
    (hNext : s.width = 1 → s.modes = mode :: outer →
      (codeStep? mode outer (w ++ '\n' :: r)).isSome) (r' : List Char) :
    otherStep? mode outer c (w ++ '\n' :: r') = some s := by
  unfold otherStep? at h ⊢
  split at h
  next step hStep =>
    obtain rfl := Option.some.inj h
    have hSame := textStep?_of_le (w := c :: w) hStep (by rw [List.length_cons]; omega) r'
    rw [List.cons_append] at hSame
    rw [hSame]
  next hNone =>
    cases hQuote : c == '\'' with
    | true => simp [hQuote] at h
    | false =>
      have hSame := textStep?_eq_none (w := c :: w) (by simpa using hQuote) hNone r'
      have hNumber := numberWidth_feed (c :: w)
      have hSymbol := symbolWidth?_feed (c :: w)
      have hFurther (t : List Char) : furtherWidth (c :: (w ++ '\n' :: t)).length
          (c :: (w ++ '\n' :: t)) = furtherWidth (w.length + 1) (c :: w) :=
        furtherWidth_feed (c :: w) t (by simp) (Nat.le_refl _)
      rw [List.cons_append] at hSame
      simp only [List.cons_append] at hNumber hSymbol
      rw [hSame]
      simp only [hQuote, Bool.false_eq_true, if_false] at h ⊢
      rw [hNumber, hSymbol, startsName_feed, nameWidth_feed, hFurther] at h ⊢
      rw [head?_feed w r r']
      split at h
      next hVariable => rw [if_pos hVariable, h]
      next hVariable =>
        rw [if_neg hVariable]
        split at h
        next hName => rw [if_pos hName, prefixed_of_le hName h hWidth hNext r']
        next hName =>
          rw [if_neg hName]
          exact h

/-- What starts with another sign than a newline starts before it. -/
theorem tail_of_head? {w r : List Char} {c : Char} (hc : c ≠ '\n')
    (h : (w ++ '\n' :: r).head? = some c) (r' : List Char) :
    (w ++ '\n' :: r').tail = w.tail ++ '\n' :: r' := by
  cases w with
  | nil => exact absurd (Option.some.inj h).symm hc
  | cons d w => rfl

theorem codeStep?_of_le {mode : Mode} {outer : List Mode} {c : Char} {w r : List Char} {s : Step}
    (h : codeStep? mode outer (c :: (w ++ '\n' :: r)) = some s) (hWidth : s.width ≤ w.length + 1)
    (hNext : s.width = 1 → s.modes = mode :: outer →
      (codeStep? mode outer (w ++ '\n' :: r)).isSome) (r' : List Char) :
    codeStep? mode outer (c :: (w ++ '\n' :: r')) = some s := by
  rw [codeStep?_cons] at h ⊢
  rw [head?_feed w r r']
  split at h
  next hTag => rw [if_pos hTag, h]
  next hTag =>
  rw [if_neg hTag]
  split at h
  next hBrace => rw [if_pos hBrace, h]
  next hBrace =>
  rw [if_neg hBrace]
  split at h
  next hHash =>
    rw [if_pos hHash]
    rw [lineCommentWidth_feed] at h ⊢
    exact h
  next hHash =>
  rw [if_neg hHash]
  split at h
  next hSlashes =>
    rw [if_pos hSlashes, tail_of_head? (by decide) hSlashes.2 r', lineCommentWidth_feed]
    rw [tail_of_head? (by decide) hSlashes.2 r, lineCommentWidth_feed] at h
    exact h
  next hSlashes =>
  rw [if_neg hSlashes]
  split at h
  next hStar =>
    rw [if_pos hStar, tail_of_head? (by decide) hStar.2 r']
    rw [tail_of_head? (by decide) hStar.2 r] at h
    obtain ⟨n, hn, rfl⟩ := Option.map_eq_some_iff.mp h
    have hLe : 2 + n ≤ w.length + 1 := hWidth
    rw [blockCommentWidth?_of_le hn (by rw [List.length_tail]; omega) r']
    rfl
  next hStar =>
  rw [if_neg hStar]
  split at h
  next hTick => rw [if_pos hTick, h]
  next hTick =>
  rw [if_neg hTick]
  split at h
  next hSpace =>
    obtain rfl := Option.some.inj h
    have hLe : 1 + ((w ++ '\n' :: r).takeWhile isSpace).length ≤ w.length + 1 := hWidth
    rw [if_pos hSpace, takeWhile_of_length_le (r := r) (by decide) (by omega) r']
  next hSpace =>
    rw [if_neg hSpace]
    exact otherStep?_of_le h hWidth hNext r'

/-! ## Texts and what is outside the tags -/

theorem embeddedStep?_feed (mode : Mode) (outer : List Mode) (w r : List Char) :
    embeddedStep? mode outer (w ++ '\n' :: r) = embeddedStep? mode outer w := by
  cases w with
  | nil => rfl
  | cons c w =>
    have hName := startsName_feed w r
    have hWidth := nameWidth_feed w r
    by_cases hBrace : c = '{'
    · subst hBrace
      cases w with
      | nil => rfl
      | cons d w => by_cases hd : d = '$' <;> simp [embeddedStep?, hd]
    · by_cases hDollar : c = '$'
      · subst hDollar
        cases w with
        | nil =>
          have hFeed : isNameStart '\n' = false := by decide
          simp [embeddedStep?, startsName, hFeed]
        | cons d w =>
          by_cases hd : d = '{'
          · subst hd
            rfl
          · simp_all [embeddedStep?]
      · simp [embeddedStep?, hBrace, hDollar]

theorem htmlStep_eq (outer : List Mode) (cs : List Char) : htmlStep outer cs =
    if cs.head? = some '<' ∧ cs.tail.head? = some '?' then
      if cs.tail.tail.head? = some '=' then ⟨.openEcho, 3, .code :: outer⟩
      else if (cs.tail.tail.take 3).map Char.toLower == ['p', 'h', 'p'] then
        ⟨.openTag, 5, .code :: outer⟩
      else ⟨.openTag, 2, .code :: outer⟩
    else ⟨.html, htmlWidth cs, .html :: outer⟩ := by
  split
  next h =>
    obtain ⟨hHead, hNext⟩ := h
    obtain ⟨t, rfl⟩ := List.head?_eq_some_iff.mp hHead
    obtain ⟨u, rfl⟩ := List.head?_eq_some_iff.mp hNext
    split
    next hEcho =>
      obtain ⟨v, rfl⟩ := List.head?_eq_some_iff.mp hEcho
      rfl
    next hEcho =>
      rw [htmlStep]
      · rfl
      · rintro v rfl
        exact hEcho rfl
  next h =>
    rw [htmlStep]
    · rintro t rfl
      exact h ⟨rfl, rfl⟩
    · rintro t rfl
      exact h ⟨rfl, rfl⟩

theorem phpTag_feed (w r : List Char) :
    (((w ++ '\n' :: r).take 3).map Char.toLower == ['p', 'h', 'p']) =
      ((w.take 3).map Char.toLower == ['p', 'h', 'p']) := by
  rcases w with _ | ⟨a, _ | ⟨b, _ | ⟨c, w⟩⟩⟩ <;> simp

theorem htmlStep_of_le {outer : List Mode} {w r : List Char}
    (hWidth : (htmlStep outer (w ++ '\n' :: r)).width ≤ w.length) (r' : List Char) :
    htmlStep outer (w ++ '\n' :: r') = htmlStep outer (w ++ '\n' :: r) := by
  rw [htmlStep_eq] at hWidth
  rw [htmlStep_eq, htmlStep_eq, head?_feed w r r']
  by_cases hOpen : (w ++ '\n' :: r).head? = some '<'
  · rw [tail_of_head? (by decide) hOpen] at hWidth ⊢
    rw [tail_of_head? (by decide) hOpen, head?_feed w.tail r r']
    split at hWidth
    next hTag =>
      rw [if_pos hTag, if_pos hTag, tail_of_head? (by decide) hTag.2, tail_of_head? (by decide) hTag.2,
        head?_feed w.tail.tail r r', phpTag_feed, phpTag_feed]
    next hTag => rw [if_neg hTag, if_neg hTag, htmlWidth_of_le hWidth r']
  · rw [if_neg fun h => hOpen h.1] at hWidth
    rw [if_neg fun h => hOpen h.1, if_neg fun h => hOpen h.1, htmlWidth_of_le hWidth r']

theorem quotedStep_of_le {quote : Char} {outer : List Mode} {w r : List Char}
    (hWidth : (quotedStep quote outer (w ++ '\n' :: r)).width ≤ w.length) (r' : List Char) :
    quotedStep quote outer (w ++ '\n' :: r') = quotedStep quote outer (w ++ '\n' :: r) := by
  unfold quotedStep at hWidth ⊢
  rw [head?_feed w r r', embeddedStep?_feed, embeddedStep?_feed]
  rw [embeddedStep?_feed] at hWidth
  split at hWidth
  next hQuote => rw [if_pos hQuote, if_pos hQuote]
  next hQuote =>
    rw [if_neg hQuote, if_neg hQuote]
    split at hWidth
    next => rfl
    next => rw [quotedTextWidth_of_le hWidth r']

theorem heredocStep_of_le {label : List Char} (hLabel : '\n' ∉ label) {lineStart : Bool}
    {outer : List Mode} {w r : List Char}
    (hWidth : (heredocStep label lineStart outer (w ++ '\n' :: r)).width ≤ w.length)
    (r' : List Char) : heredocStep label lineStart outer (w ++ '\n' :: r') =
      heredocStep label lineStart outer (w ++ '\n' :: r) := by
  unfold heredocStep at hWidth ⊢
  rw [closingLabelWidth?_feed hLabel] at hWidth ⊢
  rw [closingLabelWidth?_feed hLabel]
  split at hWidth
  next => rfl
  next =>
    rw [embeddedStep?_feed] at hWidth ⊢
    rw [embeddedStep?_feed]
    split at hWidth
    next => rfl
    next =>
      dsimp only at hWidth ⊢
      rw [heredocTextWidth_feed w r, heredocTextWidth_feed w r'] at *
      rw [List.take_append_of_le_length hWidth, List.take_append_of_le_length hWidth]

theorem nowdocStep_feed {label : List Char} (hLabel : '\n' ∉ label) (outer : List Mode)
    (w r : List Char) : nowdocStep label outer (w ++ '\n' :: r) =
      nowdocStep label outer (w ++ ['\n']) := by
  unfold nowdocStep
  rw [closingLabelWidth?_feed hLabel, closingLabelWidth?_feed hLabel, lineWidth_feed]

/-! ## The next lexeme -/

/-- A lexeme that ends before a newline is the same whatever follows the newline, provided that
the text goes on with a lexeme. -/
theorem step?_of_le {modes : List Mode} (hPlain : ∀ mode ∈ modes, mode.Plain) {w r : List Char}
    {s : Step} (h : step? modes (w ++ '\n' :: r) = some s) (hPos : s.width ≠ 0)
    (hWidth : s.width ≤ w.length)
    (hNext : (step? s.modes ((w ++ '\n' :: r).drop s.width)).isSome) (r' : List Char) :
    step? modes (w ++ '\n' :: r') = some s := by
  obtain ⟨c, w, rfl⟩ : ∃ c u, w = c :: u := by
    cases w with
    | nil => exact absurd (Nat.le_zero.mp hWidth) hPos
    | cons c w => exact ⟨c, w, rfl⟩
  rcases modes with _ | ⟨mode, outer⟩
  · cases h
  have hMode := hPlain mode (List.mem_cons_self ..)
  have hCode (h : codeStep? mode outer (c :: w ++ '\n' :: r) = some s)
      (hSame : ∀ cs, step? (mode :: outer) cs = codeStep? mode outer cs) :
      codeStep? mode outer (c :: w ++ '\n' :: r') = some s := by
    refine codeStep?_of_le h hWidth (fun hOne hModes => ?_) r'
    rwa [hModes, hOne, hSame] at hNext
  cases mode with
  | html =>
    obtain rfl := Option.some.inj h
    exact congrArg some (htmlStep_of_le hWidth r')
  | code => exact hCode h fun _ => rfl
  | embedded depth => exact hCode h fun _ => rfl
  | quoted quote =>
    obtain rfl := Option.some.inj h
    exact congrArg some (quotedStep_of_le hWidth r')
  | heredoc label lineStart =>
    obtain rfl := Option.some.inj h
    exact congrArg some (heredocStep_of_le hMode hWidth r')
  | nowdoc label =>
    obtain rfl := Option.some.inj h
    exact congrArg some ((nowdocStep_feed hMode outer _ r').trans
      (nowdocStep_feed hMode outer _ r).symm)

/-! ## Labels -/

theorem plain_of_labelOpening? {gap n : Nat} {quote : Option Char} {labelled : List Char}
    {mode : Mode} (h : labelOpening? gap quote labelled = some (n, mode)) : mode.Plain := by
  have hLabel : '\n' ∉ labelled.takeWhile isNamePart := fun hMem =>
    absurd (List.mem_takeWhile_imp hMem) (by decide)
  unfold labelOpening? at h
  obtain ⟨_, hSome⟩ := Option.ite_none_right_eq_some.mp h
  obtain ⟨_, hOpening⟩ := Option.ite_none_right_eq_some.mp hSome
  obtain ⟨_, rfl⟩ := Prod.mk.inj (Option.some.inj hOpening)
  split
  next => exact hLabel
  next => exact hLabel

/-! ## What a lexeme in code can be -/

/-- The lexemes that may stand in code, with the characters that they start with. -/
inductive CodeStep (mode : Mode) (outer : List Mode) (c : Char) (r : List Char) : Step → Prop
  | blank (spaced : isSpace c = true) :
    CodeStep mode outer c r ⟨.blank, 1 + (r.takeWhile isSpace).length, mode :: outer⟩
  | lineComment {w : Nat} (starts : c = '#' ∨ r.head? = some '/') :
    CodeStep mode outer c r ⟨.comment, w, mode :: outer⟩
  | blockComment {w : Nat} (width : blockCommentWidth? r.tail = some w) :
    CodeStep mode outer c r ⟨.comment, 2 + w, mode :: outer⟩
  | closeTag : CodeStep mode outer c r ⟨.closeTag, 2, .html :: outer⟩
  | embedClose : CodeStep mode outer c r ⟨.embedClose, 1, outer⟩
  | templateOpen {w : Nat} {inner : Mode} (plain : inner.Plain) :
    CodeStep mode outer c r ⟨.templateOpen, w, inner :: mode :: outer⟩
  | sign {w : Nat} (d : Char) : CodeStep mode outer c r ⟨.symbol, w, afterSymbol mode outer d⟩
  | word {kind : Kind} {w : Nat} (known : kind ∈ [.string, .variable, .name, .number, .symbol]) :
    CodeStep mode outer c r ⟨kind, w, mode :: outer⟩

section

variable {mode : Mode} {outer : List Mode} {c : Char} {r : List Char} {s : Step}

theorem codeStep_of_textStep? {skip : Nat} {cs : List Char}
    (h : textStep? mode outer skip cs = some s) : CodeStep mode outer c r s := by
  cases cs with
  | nil => cases h
  | cons d t =>
    rw [textStep?_cons] at h
    split at h
    next =>
      obtain ⟨_, _, rfl⟩ := Option.map_eq_some_iff.mp h
      exact .word (by decide)
    next =>
    split at h
    next => exact Option.some.inj h ▸ .templateOpen trivial
    next =>
    split at h
    next =>
      obtain ⟨⟨n, inner⟩, hOpening, rfl⟩ := Option.map_eq_some_iff.mp h
      exact .templateOpen (plain_of_labelOpening? (heredocOpening?_eq _ ▸ hOpening))
    next => cases h

theorem codeStep_of_otherStep? (h : otherStep? mode outer c r = some s) :
    CodeStep mode outer c r s := by
  unfold otherStep? at h
  split at h
  next step hText => exact Option.some.inj h ▸ codeStep_of_textStep? hText
  next =>
  split at h
  next => cases h
  next =>
  split at h
  next => exact Option.some.inj h ▸ .word (by decide)
  next =>
  split at h
  next =>
    split at h
    next step hPrefixed =>
      obtain ⟨_, hText⟩ := Option.ite_none_right_eq_some.mp hPrefixed
      exact Option.some.inj h ▸ codeStep_of_textStep? hText
    next => exact Option.some.inj h ▸ .word (by decide)
  next =>
  split at h
  next => exact Option.some.inj h ▸ .word (by decide)
  next =>
  split at h
  next => exact Option.some.inj h ▸ .word (by decide)
  next =>
    obtain ⟨w, _, rfl⟩ := Option.map_eq_some_iff.mp h
    split
    next => exact .sign c
    next => exact .word (by decide)

theorem codeStep_of_codeStep? (h : codeStep? mode outer (c :: r) = some s) :
    CodeStep mode outer c r s := by
  rw [codeStep?_cons] at h
  split at h
  next =>
    obtain ⟨_, hTag⟩ := Option.ite_none_right_eq_some.mp h
    exact Option.some.inj hTag ▸ .closeTag
  next =>
  split at h
  next =>
    split at h
    next => exact Option.some.inj h ▸ .embedClose
    next => exact Option.some.inj h ▸ .sign '}'
  next =>
  split at h
  next hHash =>
    split at h
    next => exact Option.some.inj h ▸ .word (by decide)
    next => exact Option.some.inj h ▸ .lineComment (.inl hHash)
  next =>
  split at h
  next hSlashes => exact Option.some.inj h ▸ .lineComment (.inr hSlashes.2)
  next =>
  split at h
  next =>
    obtain ⟨w, hWidth, rfl⟩ := Option.map_eq_some_iff.mp h
    exact .blockComment hWidth
  next =>
  split at h
  next => exact Option.some.inj h ▸ .templateOpen trivial
  next =>
  split at h
  next hSpace => exact Option.some.inj h ▸ .blank hSpace
  next => exact codeStep_of_otherStep? h

end

/-! ## What a lexeme outside code can be -/

def InCode : List Mode → Prop
  | .code :: _ => True
  | .embedded _ :: _ => True
  | _ => False

theorem step?_of_inCode {modes : List Mode} (h : InCode modes) :
    ∃ mode outer, modes = mode :: outer ∧ ∀ cs, step? modes cs = codeStep? mode outer cs := by
  rcases modes with _ | ⟨mode, outer⟩
  · exact h.elim
  · cases mode with
    | code => exact ⟨_, _, rfl, fun _ => rfl⟩
    | embedded depth => exact ⟨_, _, rfl, fun _ => rfl⟩
    | _ => exact h.elim

/-- The lexemes that may stand outside code, none of which is loose: the mode stays or is told apart
further, ends, or has another one inside. -/
inductive TextStep (mode : Mode) (outer : List Mode) : Step → Prop
  | stays {kind : Kind} {w : Nat} {mode' : Mode} (solid : kind ≠ .blank ∧ kind ≠ .comment)
    (plain : mode.Plain → mode'.Plain) : TextStep mode outer ⟨kind, w, mode' :: outer⟩
  | leaves {kind : Kind} {w : Nat} (solid : kind ≠ .blank ∧ kind ≠ .comment) :
    TextStep mode outer ⟨kind, w, outer⟩
  | enters {kind : Kind} {w : Nat} {mode' inner : Mode} (solid : kind ≠ .blank ∧ kind ≠ .comment)
    (inside : inner.Plain) (plain : mode.Plain → mode'.Plain) :
    TextStep mode outer ⟨kind, w, inner :: mode' :: outer⟩

theorem textStep_of_embeddedStep? {mode mode' : Mode} {outer : List Mode} {cs : List Char} {s : Step}
    (hPlain : mode.Plain → mode'.Plain) (h : embeddedStep? mode' outer cs = some s) :
    TextStep mode outer s := by
  unfold embeddedStep? at h
  split at h
  · exact Option.some.inj h ▸ .enters (by decide) trivial hPlain
  · exact Option.some.inj h ▸ .enters (by decide) trivial hPlain
  · obtain ⟨_, hName⟩ := Option.ite_none_right_eq_some.mp h
    exact Option.some.inj hName ▸ .stays (by decide) hPlain
  · cases h

theorem step?_cases {mode : Mode} {outer : List Mode} {cs : List Char} {s : Step}
    (h : step? (mode :: outer) cs = some s) :
    (InCode (mode :: outer) ∧ codeStep? mode outer cs = some s) ∨ TextStep mode outer s := by
  cases mode with
  | code => exact .inl ⟨trivial, h⟩
  | embedded depth => exact .inl ⟨trivial, h⟩
  | html =>
    obtain rfl := Option.some.inj h
    rw [htmlStep_eq]
    refine .inr ?_
    repeat' split
    all_goals exact .stays (by decide) id
  | quoted quote =>
    obtain rfl := Option.some.inj h
    unfold quotedStep
    refine .inr ?_
    split
    next => exact .leaves (by decide)
    next =>
      split
      next hStep => exact textStep_of_embeddedStep? id hStep
      next => exact .stays (by decide) id
  | heredoc label lineStart =>
    obtain rfl := Option.some.inj h
    unfold heredocStep
    refine .inr ?_
    split
    next => exact .leaves (by decide)
    next =>
      split
      next hStep =>
        have hLabel : (Mode.heredoc label lineStart).Plain → (Mode.heredoc label false).Plain := id
        exact textStep_of_embeddedStep? hLabel hStep
      next => exact .stays (by decide) id
  | nowdoc label =>
    obtain rfl := Option.some.inj h
    unfold nowdocStep
    refine .inr ?_
    split
    next => exact .leaves (by decide)
    next => exact .stays (by decide) id

/-! ## The modes that a lexeme leaves -/

theorem plain_of_afterSymbol {mode : Mode} {outer : List Mode} (c : Char)
    (hPlain : ∀ m ∈ mode :: outer, m.Plain) : ∀ m ∈ afterSymbol mode outer c, m.Plain := by
  have hOuter := (List.forall_mem_cons.mp hPlain).2
  cases mode with
  | embedded depth =>
    have hAny (n : Nat) : ∀ m ∈ Mode.embedded n :: outer, m.Plain :=
      List.forall_mem_cons.mpr ⟨trivial, hOuter⟩
    simp only [afterSymbol]
    split
    next => exact hAny _
    next =>
      split
      next => exact hAny _
      next => exact hAny _
  | _ => exact hPlain

/-- Every mode that a step leads to is one that it started in, or is plain. -/
theorem plain_of_codeStep? {mode : Mode} {outer : List Mode} {cs : List Char} {s : Step}
    (hPlain : ∀ m ∈ mode :: outer, m.Plain) (h : codeStep? mode outer cs = some s) :
    ∀ m ∈ s.modes, m.Plain := by
  have hOuter := (List.forall_mem_cons.mp hPlain).2
  cases cs with
  | nil => cases h
  | cons c r =>
    cases codeStep_of_codeStep? h with
    | blank | lineComment | blockComment | word => exact hPlain
    | closeTag => exact List.forall_mem_cons.mpr ⟨trivial, hOuter⟩
    | embedClose => exact hOuter
    | templateOpen hInner => exact List.forall_mem_cons.mpr ⟨hInner, hPlain⟩
    | sign d => exact plain_of_afterSymbol d hPlain

theorem plain_of_step? {modes : List Mode} (hPlain : ∀ m ∈ modes, m.Plain) {cs : List Char} {s : Step}
    (h : step? modes cs = some s) : ∀ m ∈ s.modes, m.Plain := by
  rcases modes with _ | ⟨mode, outer⟩
  · cases h
  rcases step?_cases h with ⟨_, hCode⟩ | hText
  · exact plain_of_codeStep? hPlain hCode
  · obtain ⟨hMode, hOuter⟩ := List.forall_mem_cons.mp hPlain
    cases hText with
    | stays _ hSame => exact List.forall_mem_cons.mpr ⟨hSame hMode, hOuter⟩
    | leaves => exact hOuter
    | enters _ hInside hSame =>
      exact List.forall_mem_cons.mpr ⟨hInside, List.forall_mem_cons.mpr ⟨hSame hMode, hOuter⟩⟩

end DocWiring.Php
