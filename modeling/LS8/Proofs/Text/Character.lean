import Mathlib
import LS8.Text.Blank

/-! Classes of characters by their codes: letters of either case, and what can be seen. -/
namespace LS8.Text

/-- Every character of ASCII behind the space can be seen. -/
theorem isBlank_eq_false {c : Char} (low : 0x20 < c.toNat) (high : c.toNat < 0x80) :
    isBlank c = false := by
  simp [isBlank, blankRanges]
  omega

theorem isDigit_iff {c : Char} : c.isDigit = true ↔ 48 ≤ c.toNat ∧ c.toNat ≤ 57 :=
  Char.isDigit_iff_toNat

theorem isAlpha_iff {c : Char} : c.isAlpha = true ↔
    (65 ≤ c.toNat ∧ c.toNat ≤ 90) ∨ (97 ≤ c.toNat ∧ c.toNat ≤ 122) := by
  simp [Char.isAlpha, Char.isUpper, Char.isLower, UInt32.le_iff_toNat_le]

theorem toNat_toUpper (c : Char) :
    c.toUpper.toNat = if 97 ≤ c.toNat ∧ c.toNat ≤ 122 then c.toNat - 32 else c.toNat := by
  have lower : ('a'.val ≤ c.val ∧ c.val ≤ 'z'.val) ↔ (97 ≤ c.toNat ∧ c.toNat ≤ 122) := by
    simp [UInt32.le_iff_toNat_le]
  simp only [Char.toUpper, lower]
  split
  · have value : (c.val + ('A'.val - 'a'.val)).toNat = c.toNat - 32 := by
      simp
      omega
    exact value
  · rfl

/-- Only letters have a case to change. -/
theorem eq_or_isAlpha_of_toUpper {c d : Char} (same : c.toUpper = d.toUpper) :
    c = d ∨ (c.isAlpha = true ∧ d.isAlpha = true) := by
  have kind : c.isAlpha = d.isAlpha := by
    rw [← Char.isUpper_toUpper_eq_isAlpha, same, Char.isUpper_toUpper_eq_isAlpha]
  by_cases letter : c.isAlpha = true
  · exact .inr ⟨letter, kind ▸ letter⟩
  · have still {c : Char} (other : ¬ c.isAlpha = true) : c.toUpper = c :=
      Char.toUpper_eq_of_not_isLower fun lower => other (by simp [Char.isAlpha, lower])
    rw [still letter, still (kind ▸ letter)] at same
    exact .inl same

/-- What is the same for all letters does not depend on their case. -/
theorem congr_toUpper {α : Type} {f : Char → α} (value : α)
    (letters : ∀ c, c.isAlpha = true → f c = value) {c d : Char} (same : c.toUpper = d.toUpper) :
    f c = f d := by
  rcases eq_or_isAlpha_of_toUpper same with rfl | ⟨first, second⟩
  · rfl
  · rw [letters c first, letters d second]

theorem isBlank_of_isAlpha {c : Char} (letter : c.isAlpha = true) : isBlank c = false := by
  have codes := isAlpha_iff.mp letter
  exact isBlank_eq_false (by omega) (by omega)

end LS8.Text
