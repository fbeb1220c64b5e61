import DocWiring.Php.Quoted
import DocWiring.Proofs.Php.Scanning

/-! # Quoted texts stand for what was written

A character is written between quotes as itself, or as a backslash and a character that stand for it.
Either way it is read back alone, whatever follows, and it does not end the text.
-/

namespace DocWiring.Php

namespace Quote

variable {q : Quote} {c : Char} {written text rest : List Char}

/-- The ways to write a character so that neither a pair nor the end of the text is seen in it. -/
inductive Writes (q : Quote) (c : Char) : List Char → Prop where
  | itself : c ≠ '\\' → c ≠ q.char → (q = .double → c ≠ '$') → Writes q c [c]
  | pair (d : Char) : q.escaped? d = some c → Writes q c ['\\', d]

theorem writes_escapeChar (q : Quote) (c : Char) : Writes q c (q.escapeChar c) := by
  unfold escapeChar
  split
  case h_1 => exact .pair '\\' (by cases q <;> rfl)
  case h_2 => exact .pair '\'' rfl
  case h_3 => exact .pair '"' rfl
  case h_4 => exact .pair '$' rfl
  case h_5 => exact .pair 'n' rfl
  case h_6 => exact .pair 't' rfl
  case h_7 => exact .pair 'r' rfl
  case h_8 hSlash hSingle hDouble hDollar _ _ _ =>
    refine .itself hSlash ?_ hDollar
    cases q with
    | single => exact hSingle rfl
    | double => exact hDouble rfl

theorem unescape_cons (h : c ≠ '\\') : q.unescape (c :: rest) = c :: q.unescape rest := by
  rw [unescape]
  · rintro rfl
    exact absurd rfl h
  · rintro _ _ rfl
    exact absurd rfl h

theorem unescape_pair {d : Char} (h : q.escaped? d = some c) :
    q.unescape ('\\' :: d :: rest) = c :: q.unescape rest := by
  rw [unescape, h]

theorem Writes.unescape_append (h : Writes q c written) :
    q.unescape (written ++ rest) = c :: q.unescape rest := by
  cases h with
  | itself hSlash => exact unescape_cons hSlash
  | pair d hPair => exact unescape_pair hPair

theorem unescape_escape_append (q : Quote) (text rest : List Char) :
    q.unescape (q.escape text ++ rest) = text ++ q.unescape rest := by
  induction text with
  | nil => rfl
  | cons c text ih =>
    rw [escape, List.flatMap_cons, List.append_assoc, (writes_escapeChar q c).unescape_append]
    exact congrArg (c :: ·) ih

theorem unescape_of_not_mem (h : '\\' ∉ text) : q.unescape text = text := by
  induction text with
  | nil => rfl
  | cons c text ih =>
    rw [List.mem_cons, not_or] at h
    rw [unescape_cons (Ne.symm h.1), ih h.2]

/-- A text is read back from how it is written, for either quote, and a text without backslashes stands for
itself. -/
theorem unescape_written (q : Quote) :
    (∀ text, q.unescape (q.escape text) = text) ∧ ∀ text, '\\' ∉ text → q.unescape text = text := by
  refine ⟨fun text => ?_, fun _ => unescape_of_not_mem⟩
  have h := unescape_escape_append q text []
  rwa [List.append_nil, unescape, List.append_nil] at h

theorem unescape_written_slashes :
    Quote.single.escape "'\\".toList = "\\'\\\\".toList ∧
    Quote.single.unescape "\\'\\\\".toList = "'\\".toList ∧
    Quote.double.unescape (Quote.double.escape "\\n$x\t\"\n".toList) = "\\n$x\t\"\n".toList ∧
    '\\' ∉ "it's $5".toList ∧ Quote.single.unescape "it's $5".toList = "it's $5".toList := by
  have hPlain : '\\' ∉ "it's $5".toList := by decide +kernel
  have hEscape : Quote.single.escape "'\\".toList = "\\'\\\\".toList := by decide +kernel
  refine ⟨hEscape, ?_, (unescape_written .double).1 _, hPlain, (unescape_written .single).2 _ hPlain⟩
  rw [← hEscape]
  exact (unescape_written .single).1 _

/-! ## Where a written text ends -/

theorem Writes.singleQuotedWidth? (h : Writes .single c written) (rest : List Char) :
    singleQuotedWidth? (written ++ rest) =
      (Php.singleQuotedWidth? rest).map (· + written.length) := by
  cases h with
  | itself hSlash hQuote => exact singleQuotedWidth?_of_other hQuote hSlash rest
  | pair d hPair => rfl

/-- The first quote that ends a text is the one after what was written. -/
theorem singleQuotedWidth?_escape (text rest : List Char) :
    singleQuotedWidth? (Quote.single.escape text ++ '\'' :: rest) =
      some ((Quote.single.escape text).length + 1) := by
  induction text with
  | nil => rfl
  | cons c text ih =>
    rw [escape, List.flatMap_cons, List.append_assoc, (writes_escapeChar .single c).singleQuotedWidth?]
    rw [escape] at ih
    rw [ih, Option.map_some, List.length_append]
    exact congrArg some (by omega)

theorem Writes.head?_ne (h : Writes .double c written) (rest : List Char) :
    (written ++ rest).head? ≠ some '$' := by
  cases h with
  | itself _ _ hDollar => simpa using hDollar rfl
  | pair d _ => simp

theorem head?_escape_ne (text rest : List Char) :
    (Quote.double.escape text ++ '"' :: rest).head? ≠ some '$' := by
  cases text with
  | nil => simp [escape]
  | cons c text =>
    rw [escape, List.flatMap_cons, List.append_assoc]
    exact (writes_escapeChar .double c).head?_ne _

theorem startsEmbedded_eq_false (hDollar : c ≠ '$') (hRest : rest.head? ≠ some '$') :
    startsEmbedded (c :: rest) = false := by
  unfold startsEmbedded
  split
  next h =>
    rw [(List.cons.inj h).2] at hRest
    exact absurd rfl hRest
  next h => exact absurd (List.cons.inj h).1 hDollar
  next h => exact absurd (List.cons.inj h).1 hDollar
  next => rfl

theorem Writes.quotedTextWidth (h : Writes .double c written) (hRest : rest.head? ≠ some '$') :
    quotedTextWidth '"' (written ++ rest) = written.length + Php.quotedTextWidth '"' rest := by
  cases h with
  | itself hSlash hQuote hDollar =>
    have hStop : ¬ (c == '"' || startsEmbedded (c :: rest)) = true := by
      rw [startsEmbedded_eq_false (hDollar rfl) hRest]
      simpa [char] using hQuote
    rw [List.singleton_append, quotedTextWidth_of_other hSlash, if_neg hStop, List.length_singleton]
  | pair d hPair => rfl

/-- Nothing in what was written is embedded code or ends the text. -/
theorem quotedTextWidth_escape (text rest : List Char) :
    quotedTextWidth '"' (Quote.double.escape text ++ '"' :: rest) =
      (Quote.double.escape text).length := by
  induction text with
  | nil => rfl
  | cons c text ih =>
    have hRest := head?_escape_ne text rest
    rw [escape] at ih hRest
    rw [escape, List.flatMap_cons, List.append_assoc,
      (writes_escapeChar .double c).quotedTextWidth hRest, ih, List.length_append]

end Quote

end DocWiring.Php
