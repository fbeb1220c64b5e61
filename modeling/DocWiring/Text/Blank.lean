/-! # White space

The characters with the Unicode property `White_Space`, and the trimming of texts by them.
-/

namespace DocWiring.Text

/-- Has the Unicode property `White_Space`. -/
def isBlank (c : Char) : Bool :=
  let n := c.toNat
  (9 ≤ n && n ≤ 13) || n == 0x20 || n == 0x85 || n == 0xA0 || n == 0x1680 ||
    (0x2000 ≤ n && n ≤ 0x200A) || n == 0x2028 || n == 0x2029 || n == 0x202F || n == 0x205F ||
    n == 0x3000

theorem isBlank_of_isWhitespace {c : Char} (h : c.isWhitespace = true) : isBlank c = true := by
  have cases : c = ' ' ∨ c = '\t' ∨ c = '\r' ∨ c = '\n' := by
    simpa [Char.isWhitespace, or_assoc] using h
  rcases cases with rfl | rfl | rfl | rfl <;> decide

def trimStart (t : List Char) : List Char :=
  t.dropWhile isBlank

def trimEnd : List Char → List Char
  | [] => []
  | c :: r =>
    match trimEnd r with
    | [] => if isBlank c then [] else [c]
    | d :: s => c :: d :: s

def trim (t : List Char) : List Char :=
  trimEnd (trimStart t)

/-- Holds white space only. -/
def isBlankText (t : List Char) : Bool :=
  t.all isBlank

theorem trimEnd_eq_nil_iff {t : List Char} : trimEnd t = [] ↔ isBlankText t = true := by
  induction t with
  | nil => simp [trimEnd, isBlankText]
  | cons c r ih =>
    simp only [isBlankText, List.all_cons, Bool.and_eq_true] at ih ⊢
    cases h : trimEnd r with
    | nil =>
      have blank := ih.mp h
      by_cases hc : isBlank c = true <;> simp [trimEnd, h, hc, blank]
    | cons d s =>
      have notBlank : ¬ (r.all isBlank = true) := fun all => by simp [ih.mpr all] at h
      simp [trimEnd, h, notBlank]

end DocWiring.Text
