import DocWiring.Text.Blank
import DocWiring.Text.Word
import Mathlib.Data.List.Basic
import Mathlib.Data.List.TakeWhile

/-! # Runs of a class of characters

No word character is white space.  A text starts with one longest run of a class, which is followed by
a character outside the class or by nothing.
-/

namespace DocWiring.Text

theorem isBlank_feed : isBlank '\n' = true := by
  decide

theorem isWord_feed : isWord '\n' = false := by
  rw [isWord_of_isAsciiWord (by decide)]
  decide

theorem isWord_return : isWord '\r' = false := by
  rw [isWord_of_isAsciiWord (by decide)]
  decide

def blankPoints : List Nat :=
  [9, 10, 11, 12, 13, 0x20, 0x85, 0xA0, 0x1680, 0x2000, 0x2001, 0x2002, 0x2003, 0x2004, 0x2005,
    0x2006, 0x2007, 0x2008, 0x2009, 0x200A, 0x2028, 0x2029, 0x202F, 0x205F, 0x3000]

theorem mem_blankPoints {c : Char} (h : isBlank c = true) : c.toNat ∈ blankPoints := by
  simp only [isBlank, Bool.or_eq_true, Bool.and_eq_true, decide_eq_true_eq, beq_iff_eq] at h
  simp only [blankPoints, List.mem_cons, List.not_mem_nil, or_false]
  omega

theorem isBlank_of_isWord {c : Char} (h : isWord c = true) : isBlank c = false := by
  have hPoints : ∀ n ∈ blankPoints, isWord (Char.ofNat n) = false := by decide +kernel
  rw [← Bool.not_eq_true]
  intro hBlank
  have hNone := hPoints c.toNat (mem_blankPoints hBlank)
  rw [Char.ofNat_toNat, h] at hNone
  cases hNone

theorem isUpper_iff {c : Char} : c.isUpper = true ↔ 65 ≤ c.toNat ∧ c.toNat ≤ 90 := by
  delta Char.isUpper
  simp [UInt32.le_iff_toNat_le]

theorem isWord_of_isAsciiWord_eq_true {c : Char} (h : isAsciiWord c = true) : isWord c = true := by
  have hAscii : c.toNat < 0x80 := by
    delta isAsciiWord Char.isAlphanum Char.isAlpha Char.isLower Char.isDigit at h
    simp only [Bool.or_eq_true, Bool.and_eq_true, decide_eq_true_eq, beq_iff_eq, isUpper_iff,
      UInt32.le_iff_toNat_le] at h
    rcases h with ((⟨_, h⟩ | ⟨_, h⟩) | ⟨_, h⟩) | rfl
    · exact Nat.lt_of_le_of_lt h (by decide)
    · exact Nat.lt_of_le_of_lt h (by decide)
    · exact Nat.lt_of_le_of_lt h (by decide)
    · decide
  rw [isWord_of_isAsciiWord hAscii, h]

/-! ## The first run of a class -/

/-- The first run of a class is the one after which another character or nothing follows. -/
theorem takeWhile_dropWhile_iff {p : Char → Bool} {t w r : List Char} :
    (t.takeWhile p = w ∧ t.dropWhile p = r) ↔
      t = w ++ r ∧ (∀ c ∈ w, p c = true) ∧ ∀ c ∈ r.head?, p c = false := by
  constructor
  · rintro ⟨rfl, rfl⟩
    refine ⟨List.takeWhile_append_dropWhile.symm, fun c hc => List.mem_takeWhile_imp hc, ?_⟩
    intro c hc
    have hNot := List.head?_dropWhile_not p t
    rw [Option.mem_def.mp hc] at hNot
    exact hNot
  · rintro ⟨rfl, hw, hr⟩
    rw [List.takeWhile_append_of_pos hw, List.dropWhile_append_of_pos hw]
    cases r with
    | nil => simp
    | cons c s => simp [hr c rfl]

/-- A text has one first run of a class, or of what is outside it. -/
theorem run_unique {p : Char → Bool} {v : Bool} {w r w' r' : List Char} (h : w ++ r = w' ++ r')
    (hw : ∀ c ∈ w, p c = v) (hr : ∀ c ∈ r.head?, p c = !v) (hw' : ∀ c ∈ w', p c = v)
    (hr' : ∀ c ∈ r'.head?, p c = !v) : w = w' ∧ r = r' := by
  have hRun {x y : List Char} (hx : ∀ c ∈ x, p c = v) (hy : ∀ c ∈ y.head?, p c = !v) :
      (x ++ y).takeWhile (p · == v) = x ∧ (x ++ y).dropWhile (p · == v) = y := by
    refine takeWhile_dropWhile_iff.mpr ⟨rfl, fun c hc => by simp [hx c hc], fun c hc => ?_⟩
    rw [hy c hc]
    cases v <;> rfl
  obtain ⟨hTake, hDrop⟩ := hRun hw hr
  rw [h] at hTake hDrop
  obtain ⟨hTake', hDrop'⟩ := hRun hw' hr'
  exact ⟨hTake.symm.trans hTake', hDrop.symm.trans hDrop'⟩

theorem forall_head?_append {p : Char → Bool} {v : Bool} {w : List Char} (h : ∀ c ∈ w, p c = v)
    (hNil : w ≠ []) (r : List Char) : ∀ c ∈ (w ++ r).head?, p c = v := by
  intro c hc
  rw [List.head?_append_of_ne_nil _ hNil] at hc
  exact h c (List.mem_of_mem_head? hc)

end DocWiring.Text
