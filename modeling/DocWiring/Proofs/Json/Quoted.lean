import DocWiring.Json.Reader
import Mathlib.Data.List.Basic

/-! # Quoted texts are read back

A character between quotes is written as itself, as a letter after a backslash or by its code point.
Each of these gives one code unit, and no code unit of a character is half of another one.
-/

namespace DocWiring.Json

theorem units?_shortEscape {c d : Char} (h : shortEscape? c = some d) (r : List Char) :
    units? ('\\' :: c :: r) = (units? r).map fun p => (d.toNat :: p.1, p.2) := by
  have hc : c ≠ 'u' := by
    rintro rfl
    cases h
  rw [units?]
  · simp only [h, Option.bind_eq_bind, Option.bind_some]
    cases units? r <;> rfl
  · rintro _ _ _ _ _ rfl
    exact absurd rfl hc

theorem hexValue?_digitChar : ∀ n < 16, hexValue? (Nat.digitChar n) = some n := by
  decide

theorem units?_control {c : Char} (h : c.toNat < 0x20) (r : List Char) :
    units? (['\\', 'u', '0', '0'] ++ twoHexDigits c.toNat ++ r) =
      (units? r).map fun p => (c.toNat :: p.1, p.2) := by
  have hHigh := hexValue?_digitChar (c.toNat / 16) (by omega)
  have hLow := hexValue?_digitChar (c.toNat % 16) (by omega)
  have hZero : hexValue? '0' = some 0 := by decide
  have hUnit : ((0 * 16 + 0) * 16 + c.toNat / 16) * 16 + c.toNat % 16 = c.toNat := by omega
  have hHex : hexUnit? '0' '0' (Nat.digitChar (c.toNat / 16)) (Nat.digitChar (c.toNat % 16)) =
      some c.toNat := by
    simp only [hexUnit?, hZero, hHigh, hLow, Option.bind_eq_bind, Option.bind_some, hUnit]
    rfl
  simp only [twoHexDigits, List.cons_append, List.nil_append, units?, hHex, Option.bind_eq_bind,
    Option.bind_some]
  cases units? r <;> rfl

theorem units?_plain {c : Char} (hQuote : c ≠ '"') (hSlash : c ≠ '\\') (hSmall : ¬ c.toNat < 0x20)
    (r : List Char) : units? (c :: r) = (units? r).map fun p => (c.toNat :: p.1, p.2) := by
  rw [units?]
  · rw [if_neg hSmall]
    cases units? r <;> rfl
  · exact fun h => hQuote h
  · exact fun _ _ _ _ _ h => absurd h hSlash
  · exact fun _ _ h => absurd h hSlash

/-- However a character is written, it gives its code point. -/
theorem units?_escapeChar (c : Char) (r : List Char) :
    units? (escapeChar c ++ r) = (units? r).map fun p => (c.toNat :: p.1, p.2) := by
  unfold escapeChar
  split
  next h =>
    subst h
    exact units?_shortEscape rfl r
  next hQuote =>
  split
  next h =>
    subst h
    exact units?_shortEscape rfl r
  next hSlash =>
  split
  next h =>
    subst h
    exact units?_shortEscape rfl r
  next =>
  split
  next h =>
    subst h
    exact units?_shortEscape rfl r
  next =>
  split
  next h =>
    subst h
    exact units?_shortEscape rfl r
  next =>
  split
  next h =>
    subst h
    exact units?_shortEscape rfl r
  next =>
  split
  next h =>
    subst h
    exact units?_shortEscape rfl r
  next =>
  split
  next hSmall => exact units?_control hSmall r
  next hSmall => exact units?_plain hQuote hSlash hSmall r

theorem units?_quoted (cs rest : List Char) :
    units? (cs.flatMap escapeChar ++ '"' :: rest) = some (cs.map Char.toNat, rest) := by
  induction cs with
  | nil => rfl
  | cons c cs ih => rw [List.flatMap_cons, List.append_assoc, units?_escapeChar, ih]; rfl

theorem not_isHalf (c : Char) : isHighHalf c.toNat = false ∧ isLowHalf c.toNat = false := by
  have hValid : c.toNat < 0xD800 ∨ 0xDFFF < c.toNat ∧ c.toNat < 0x110000 := c.valid
  simp only [isHighHalf, isLowHalf, Bool.and_eq_false_iff, decide_eq_false_iff_not]
  omega

theorem joinUnits_map_toNat (cs : List Char) : joinUnits (cs.map Char.toNat) = some cs := by
  induction cs with
  | nil => rfl
  | cons c cs ih =>
    obtain ⟨hHigh, hLow⟩ := not_isHalf c
    cases cs with
    | nil => simp [joinUnits, hHigh, hLow]
    | cons d cs =>
      rw [List.map_cons, List.map_cons, joinUnits, ← List.map_cons, ih]
      simp [hHigh, hLow]

theorem stringBody?_quoted (s : String) (rest : List Char) :
    stringBody? (s.toList.flatMap escapeChar ++ '"' :: rest) = some (some s, rest) := by
  simp only [stringBody?, units?_quoted, Option.bind_eq_bind, Option.bind_some, joinUnits_map_toNat,
    Option.map_some, String.ofList_toList]
  rfl

end DocWiring.Json
