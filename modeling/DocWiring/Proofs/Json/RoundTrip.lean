import DocWiring.Proofs.Json.Quoted
import Mathlib.Data.Nat.Digits.Defs

/-! # Printed values are read back

A value whose strings have a text and whose numbers are natural is printed so that the reader gives the
same value.  The text that is printed is as long as values are nested in it, so that there is always fuel.
-/

namespace DocWiring.Json

/-- Every string of the value has its text, and every number is a natural one. -/
inductive Plain : Json → Prop where
  | null : Plain .null
  | bool (value : Bool) : Plain (.bool value)
  | number (n : Nat) : Plain (.ofNat n)
  | string (s : String) : Plain (.ofString s)
  | array {items : List Json} (h : ∀ v ∈ items, Plain v) : Plain (.array items)
  | object {fields : List (String × Json)} (h : ∀ f ∈ fields, Plain f.2) : Plain (.ofFields fields)

/-! ## White space -/

theorem skipSpace_newLine (level : Nat) (cs : List Char) :
    skipSpace (newLine level ++ cs) = skipSpace cs := by
  have hSpace : ∀ c ∈ newLine level, isSpace c = true := by
    intro c hc
    rcases List.mem_cons.mp hc with rfl | hc
    · rfl
    · rw [List.eq_of_mem_replicate hc]
      rfl
  exact List.dropWhile_append_of_pos hSpace

theorem skipSpace_cons {c : Char} (h : isSpace c = false) (cs : List Char) :
    skipSpace (c :: cs) = c :: cs :=
  List.dropWhile_cons_of_neg (by simp [h])

theorem value?_newLine (fuel level : Nat) (cs : List Char) :
    value? fuel (newLine level ++ cs) = value? fuel cs := by
  cases fuel with
  | zero => rfl
  | succ fuel => simp only [value?, skipSpace_newLine]

theorem value?_space (fuel : Nat) (cs : List Char) : value? fuel (' ' :: cs) = value? fuel cs := by
  cases fuel with
  | zero => rfl
  | succ fuel =>
    have hSkip : skipSpace (' ' :: cs) = skipSpace cs := List.dropWhile_cons_of_pos rfl
    simp only [value?, hSkip]

theorem items?_newLine (fuel level : Nat) (cs : List Char) :
    items? fuel (newLine level ++ cs) = items? fuel cs := by
  cases fuel with
  | zero => rfl
  | succ fuel => simp only [items?, value?_newLine]

theorem fields?_newLine (fuel level : Nat) (cs : List Char) :
    fields? fuel (newLine level ++ cs) = fields? fuel cs := by
  cases fuel with
  | zero => rfl
  | succ fuel => simp only [fields?, skipSpace_newLine]

/-! ## Numbers -/

/-- A number that stands before the text ends there. -/
def EndsNumber (rest : List Char) : Prop :=
  ∀ c ∈ rest.head?, c.isDigit = false ∧ c ≠ '.' ∧ c ≠ 'e' ∧ c ≠ 'E'

theorem exists_toDigits_cons (n : Nat) : ∃ c cs, Nat.toDigits 10 n = c :: cs ∧ c.isDigit = true ∧
    (c = '0' → n = 0) := by
  induction n using Nat.strongRecOn with
  | ind n ih =>
    by_cases hSmall : n < 10
    · have hDigit : ∀ n < 10, n.digitChar.isDigit = true ∧ (n.digitChar = '0' → n = 0) := by decide
      exact ⟨n.digitChar, [], Nat.toDigits_of_lt_base hSmall, hDigit n hSmall⟩
    · obtain ⟨c, cs, hDigits, hDigit, hZero⟩ := ih (n / 10) (by omega)
      rw [Nat.toDigits_of_base_le (by decide) (by omega), hDigits]
      refine ⟨c, cs ++ [(n % 10).digitChar], rfl, hDigit, fun hc => ?_⟩
      have := hZero hc
      omega

theorem ne_of_isDigit {c d : Char} (hc : c.isDigit = true) (hd : d.isDigit = false) : c ≠ d := by
  rintro rfl
  exact absurd hc (by simp [hd])

theorem isSpace_of_isDigit {c : Char} (h : c.isDigit = true) : isSpace c = false := by
  simp [isSpace, ne_of_isDigit h]

theorem digits?_append {ds rest : List Char} (h : ∀ c ∈ ds, c.isDigit = true) (hNil : ds ≠ [])
    (hEnd : EndsNumber rest) : digits? (ds ++ rest) = some (ds, rest) := by
  have hRest : rest.takeWhile Char.isDigit = [] ∧ rest.dropWhile Char.isDigit = rest := by
    cases rest with
    | nil => exact ⟨rfl, rfl⟩
    | cons c rest =>
      have hc : ¬ c.isDigit = true := by simp [(hEnd c rfl).1]
      exact ⟨List.takeWhile_cons_of_neg hc, List.dropWhile_cons_of_neg hc⟩
  simp only [digits?, List.takeWhile_append_of_pos h, List.dropWhile_append_of_pos h, hRest,
    List.append_nil, List.isEmpty_iff, if_neg hNil]

theorem wholePart?_toDigits (n : Nat) {rest : List Char} (hEnd : EndsNumber rest) :
    wholePart? (Nat.toDigits 10 n ++ rest) = some (Nat.toDigits 10 n, rest) := by
  obtain ⟨c, cs, hDigits, _, hZero⟩ := exists_toDigits_cons n
  have hAll : ∀ d ∈ Nat.toDigits 10 n, d.isDigit = true := fun d hd =>
    Nat.isDigit_of_mem_toDigits (by decide) (by decide) hd
  by_cases hc : c = '0'
  · rw [hZero hc]
    rfl
  · rw [← digits?_append hAll Nat.toDigits_ne_nil hEnd, hDigits, List.cons_append, wholePart?]
    exact fun _ h => hc (List.cons.inj h).1

theorem fractionPart?_eq {rest : List Char} (hEnd : EndsNumber rest) :
    fractionPart? rest = some ([], rest) := by
  cases rest with
  | nil => rfl
  | cons c rest =>
    rw [fractionPart?]
    exact fun _ h => (hEnd c rfl).2.1 (List.cons.inj h).1

theorem exponentPart?_eq {rest : List Char} (hEnd : EndsNumber rest) :
    exponentPart? rest = some ([], rest) := by
  cases rest with
  | nil => rfl
  | cons c rest =>
    obtain ⟨_, _, hLower, hUpper⟩ := hEnd c rfl
    simp [exponentPart?, hLower, hUpper]

theorem number?_toDigits (n : Nat) {rest : List Char} (hEnd : EndsNumber rest) :
    number? (Nat.toDigits 10 n ++ rest) = some (Nat.toDigits 10 n, rest) := by
  have hWhole := wholePart?_toDigits n hEnd
  obtain ⟨c, cs, hDigits, hDigit, _⟩ := exists_toDigits_cons n
  rw [hDigits, List.cons_append] at hWhole ⊢
  unfold number?
  split
  next sign cs' hSign =>
    split at hSign
    next r hMinus => exact absurd (List.cons.inj hMinus).1 (ne_of_isDigit hDigit rfl)
    next =>
      obtain ⟨rfl, rfl⟩ := Prod.mk.inj hSign
      simp [hWhole, fractionPart?_eq hEnd, exponentPart?_eq hEnd]

/-! ## Values -/

/-- The value is read from the front of any text that its print stands at. -/
def ReadsBack (v : Json) : Prop :=
  ∀ level fuel rest, (print level v).length ≤ fuel → EndsNumber rest →
    value? fuel (print level v ++ rest) = some (v, rest)

theorem Plain.exists_print_cons {v : Json} (h : Plain v) (level : Nat) :
    ∃ c cs, print level v = c :: cs ∧ isSpace c = false ∧ c ≠ ']' := by
  cases h with
  | null => exact ⟨_, _, rfl, rfl, by decide⟩
  | bool value => cases value <;> exact ⟨_, _, rfl, rfl, by decide⟩
  | number n =>
    obtain ⟨c, cs, hDigits, hDigit, _⟩ := exists_toDigits_cons n
    exact ⟨c, cs, hDigits, isSpace_of_isDigit hDigit, ne_of_isDigit hDigit rfl⟩
  | string s => exact ⟨_, _, rfl, rfl, by decide⟩
  | @array items _ => cases items <;> exact ⟨_, _, rfl, rfl, by decide⟩
  | @object fields _ => cases fields <;> exact ⟨_, _, rfl, rfl, by decide⟩

theorem Plain.readsBack_of_succ {v : Json} (hPlain : Plain v)
    (h : ∀ level fuel rest, (print level v).length ≤ fuel + 1 → EndsNumber rest →
      value? (fuel + 1) (print level v ++ rest) = some (v, rest)) : ReadsBack v := by
  intro level fuel rest hFuel hEnd
  obtain ⟨c, cs, hPrint, _⟩ := hPlain.exists_print_cons level
  cases fuel with
  | zero => simp [hPrint] at hFuel
  | succ fuel => exact h level fuel rest hFuel hEnd

theorem endsNumber_cons {c : Char} (h : c = ',' ∨ c = '\n') (cs : List Char) : EndsNumber (c :: cs) := by
  intro d hd
  obtain rfl : c = d := by simpa using hd
  rcases h with rfl | rfl <;> decide

theorem endsNumber_printItems (level outer : Nat) (items : List Json) (cs : List Char) :
    EndsNumber (printItems level items ++ (newLine outer ++ cs)) := by
  cases items with
  | nil => exact endsNumber_cons (.inr rfl) _
  | cons item items => exact endsNumber_cons (.inl rfl) _

theorem endsNumber_printFields (level outer : Nat) (fields : List (Option String × Json))
    (cs : List Char) : EndsNumber (printFields level fields ++ (newLine outer ++ cs)) := by
  cases fields with
  | nil => exact endsNumber_cons (.inr rfl) _
  | cons field fields => exact endsNumber_cons (.inl rfl) _

theorem items?_print {item : Json} {items : List Json} (h : ∀ v ∈ item :: items, ReadsBack v)
    (level outer fuel : Nat)
    (hFuel : (print level item ++ printItems level items).length < fuel) (rest : List Char) :
    items? fuel (print level item ++ (printItems level items ++ (newLine outer ++ ']' :: rest))) =
      some (item :: items, rest) := by
  induction items generalizing item fuel with
  | nil =>
    obtain ⟨k, rfl⟩ := Nat.exists_eq_succ_of_ne_zero (Nat.ne_zero_of_lt hFuel)
    have hItem := h item List.mem_cons_self level k _ (by simpa [printItems] using Nat.le_of_lt_succ hFuel)
      (endsNumber_printItems level outer [] (']' :: rest))
    rw [items?, hItem]
    simp only [printItems, List.nil_append, Option.bind_eq_bind, Option.bind_some, skipSpace_newLine]
    rfl
  | cons next items ih =>
    obtain ⟨k, rfl⟩ := Nat.exists_eq_succ_of_ne_zero (Nat.ne_zero_of_lt hFuel)
    obtain ⟨hFirst, hRest⟩ := List.forall_mem_cons.mp h
    simp only [printItems, newLine, List.length_append, List.length_cons] at hFuel
    have hItem := hFirst level k _ (by omega)
      (endsNumber_printItems level outer (next :: items) (']' :: rest))
    have hItems := ih hRest k (by rw [List.length_append]; omega)
    rw [items?, hItem]
    simp only [printItems, List.cons_append, List.append_assoc, Option.bind_eq_bind, Option.bind_some]
    rw [skipSpace_cons (by rfl)]
    simp only [items?_newLine, hItems]
    rfl

/-- The field of an object under a name. -/
def named (f : String × Json) : Option String × Json :=
  (some f.1, f.2)

theorem fields?_printField (field : String × Json) (level fuel : Nat) (cs : List Char) :
    fields? (fuel + 1) (printField level (named field) ++ cs) = (do
      let (value, r) ← value? fuel (print level field.2 ++ cs)
      match skipSpace r with
      | ',' :: r =>
        let (fields, rest) ← fields? fuel r
        return ((some field.1, value) :: fields, rest)
      | '}' :: rest => return ([(some field.1, value)], rest)
      | _ => none) := by
  have hText : printField level (named field) ++ cs = '"' :: (field.1.toList.flatMap escapeChar ++
      '"' :: ':' :: ' ' :: (print level field.2 ++ cs)) := by
    simp [named, printField, quote]
  rw [hText, fields?, skipSpace_cons (by rfl)]
  simp only [stringBody?_quoted, Option.bind_eq_bind, Option.bind_some]
  rw [skipSpace_cons (by rfl)]
  exact congrArg (Option.bind · _) (value?_space fuel _)

theorem fields?_print {field : String × Json} {fields : List (String × Json)}
    (h : ∀ f ∈ field :: fields, ReadsBack f.2) (level outer fuel : Nat)
    (hFuel : (printField level (named field) ++ printFields level (fields.map named)).length < fuel)
    (rest : List Char) :
    fields? fuel (printField level (named field) ++
        (printFields level (fields.map named) ++ (newLine outer ++ '}' :: rest))) =
      some (named field :: fields.map named, rest) := by
  induction fields generalizing field fuel with
  | nil =>
    obtain ⟨k, rfl⟩ := Nat.exists_eq_succ_of_ne_zero (Nat.ne_zero_of_lt hFuel)
    simp only [named, printField, List.length_append] at hFuel
    have hValue := h field List.mem_cons_self level k _ (by omega)
      (endsNumber_printFields level outer [] ('}' :: rest))
    rw [fields?_printField, List.map_nil, hValue]
    simp only [printFields, List.nil_append, Option.bind_eq_bind, Option.bind_some, skipSpace_newLine]
    rfl
  | cons next fields ih =>
    obtain ⟨k, rfl⟩ := Nat.exists_eq_succ_of_ne_zero (Nat.ne_zero_of_lt hFuel)
    obtain ⟨hFirst, hRest⟩ := List.forall_mem_cons.mp h
    rw [List.map_cons, printFields, List.length_append, printField] at hFuel
    simp only [newLine, List.length_append, List.length_cons] at hFuel
    have hValue := hFirst level k _ (by simp only [named] at hFuel; omega)
      (endsNumber_printFields level outer ((next :: fields).map named) ('}' :: rest))
    have hFields := ih hRest k (by rw [List.length_append]; omega)
    rw [fields?_printField, hValue]
    simp only [List.map_cons, printFields, List.cons_append, List.append_assoc, Option.bind_eq_bind,
      Option.bind_some]
    rw [skipSpace_cons (by rfl)]
    simp only [fields?_newLine, hFields]
    rfl

theorem readsBack_array {items : List Json} (hPlain : ∀ v ∈ items, Plain v)
    (h : ∀ v ∈ items, ReadsBack v) : ReadsBack (.array items) := by
  refine (Plain.array hPlain).readsBack_of_succ fun level fuel rest hFuel _ => ?_
  cases items with
  | nil => rfl
  | cons item items =>
    obtain ⟨c, cs, hPrint, hSpace, hOther⟩ :=
      (hPlain item List.mem_cons_self).exists_print_cons (level + 1)
    have hItems := items?_print h (level + 1) level fuel (by
      simp only [print, newLine, List.length_append, List.length_cons] at hFuel
      rw [List.length_append]
      omega) rest
    have hText : print level (.array (item :: items)) ++ rest = '[' :: (newLine (level + 1) ++
        (print (level + 1) item ++ (printItems (level + 1) items ++ (newLine level ++ ']' :: rest)))) := by
      simp [print]
    rw [hText, value?, skipSpace_cons (by rfl)]
    simp only [skipSpace_newLine, items?_newLine, hItems]
    -- The first item does not start like the end of an empty array.
    rw [hPrint, List.cons_append, skipSpace_cons hSpace]
    split
    next hClose => exact absurd (List.cons.inj hClose).1 hOther
    next => rfl

theorem readsBack_object {fields : List (String × Json)} (hPlain : ∀ f ∈ fields, Plain f.2)
    (h : ∀ f ∈ fields, ReadsBack f.2) : ReadsBack (.ofFields fields) := by
  refine (Plain.object hPlain).readsBack_of_succ fun level fuel rest hFuel _ => ?_
  cases fields with
  | nil => rfl
  | cons field fields =>
    have hPrint : print level (.ofFields (field :: fields)) = '{' :: newLine (level + 1) ++
        printField (level + 1) (named field) ++ printFields (level + 1) (fields.map named) ++
        newLine level ++ ['}'] := rfl
    have hFields := fields?_print h (level + 1) level fuel (by
      simp only [hPrint, newLine, List.length_append, List.length_cons] at hFuel
      rw [List.length_append]
      omega) rest
    obtain ⟨cs, hQuote⟩ : ∃ cs, printField (level + 1) (named field) = '"' :: cs := ⟨_, rfl⟩
    have hText : print level (.ofFields (field :: fields)) ++ rest = '{' :: (newLine (level + 1) ++
        (printField (level + 1) (named field) ++
          (printFields (level + 1) (fields.map named) ++ (newLine level ++ '}' :: rest)))) := by
      simp [hPrint]
    rw [hText, value?, skipSpace_cons (by rfl)]
    simp only [skipSpace_newLine, fields?_newLine, hFields]
    rw [hQuote, List.cons_append, skipSpace_cons (by rfl)]
    rfl

theorem value?_digit {c : Char} (h : c.isDigit = true) (fuel : Nat) (cs : List Char) :
    value? (fuel + 1) (c :: cs) = (number? (c :: cs)).map fun p => (.number p.1, p.2) := by
  rw [value?, skipSpace_cons (isSpace_of_isDigit h)]
  split
  next hNil => cases hNil
  next hHead => exact absurd (List.cons.inj hHead).1 (ne_of_isDigit h rfl)
  next hHead => exact absurd (List.cons.inj hHead).1 (ne_of_isDigit h rfl)
  next hHead => exact absurd (List.cons.inj hHead).1 (ne_of_isDigit h rfl)
  next hHead => exact absurd (List.cons.inj hHead).1 (ne_of_isDigit h rfl)
  next hHead => exact absurd (List.cons.inj hHead).1 (ne_of_isDigit h rfl)
  next hHead => exact absurd (List.cons.inj hHead).1 (ne_of_isDigit h rfl)
  next => rfl

theorem readsBack_number (n : Nat) : ReadsBack (.ofNat n) := by
  refine (Plain.number n).readsBack_of_succ fun level fuel rest _ hEnd => ?_
  have hNumber := number?_toDigits n hEnd
  obtain ⟨c, cs, hDigits, hDigit, _⟩ := exists_toDigits_cons n
  rw [hDigits, List.cons_append] at hNumber
  rw [ofNat, print, hDigits, List.cons_append, value?_digit hDigit, hNumber]
  rfl

theorem readsBack_string (s : String) : ReadsBack (.ofString s) := by
  refine (Plain.string s).readsBack_of_succ fun level fuel rest _ _ => ?_
  have hText : print level (.ofString s) ++ rest =
      '"' :: (s.toList.flatMap escapeChar ++ '"' :: rest) := by
    simp [ofString, print, quote]
  rw [hText, value?, skipSpace_cons (by rfl)]
  simp only [stringBody?_quoted]
  rfl

theorem Plain.readsBack {v : Json} (h : Plain v) : ReadsBack v := by
  induction h with
  | null => exact Plain.null.readsBack_of_succ fun _ _ _ _ _ => rfl
  | bool value =>
    refine (Plain.bool value).readsBack_of_succ fun _ _ _ _ _ => ?_
    cases value <;> rfl
  | number n => exact readsBack_number n
  | string s => exact readsBack_string s
  | array hPlain ih => exact readsBack_array hPlain ih
  | object hPlain ih => exact readsBack_object hPlain ih

/-- A printed value is read back, whatever its level. -/
theorem read?_print {v : Json} (h : Plain v) (level : Nat) : read? (print level v) = some v := by
  have hValue := h.readsBack level (2 * (print level v).length + 2) [] (by omega) (by simp [EndsNumber])
  rw [List.append_nil] at hValue
  rw [read?, hValue]
  rfl

end DocWiring.Json
