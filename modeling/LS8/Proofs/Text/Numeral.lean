import LS8.Proofs.Text.Character
import LS8.Text.Numeral

/-! Numerals read back. In the bases up to sixteen a number that is written is the number that is
read, however many zeros are in front of it and in whichever case its digits are. -/
namespace LS8.Numeral

section
variable {base : Nat}

theorem readFrom_append (front : Nat) (digits more : List Char) :
    readFrom base front (digits ++ more) =
      (readFrom base front digits).bind fun value => readFrom base value more := by
  induction digits generalizing front with
  | nil => rfl
  | cons c digits ih =>
    rw [List.cons_append, readFrom, readFrom]
    cases digit? base c with
    | none => rfl
    | some value => exact ih _

/-- The value of a digit by its code. -/
theorem digit?_eq (base : Nat) (c : Char) : digit? base c =
    (if 48 ≤ c.toNat ∧ c.toNat ≤ 57 then some (c.toNat - 48)
      else if 97 ≤ c.toNat ∧ c.toNat ≤ 122 then some (c.toNat - 97 + 10)
      else if 65 ≤ c.toNat ∧ c.toNat ≤ 90 then some (c.toNat - 65 + 10)
      else none).filter (· < base) := by
  have lower : c.isLower = true ↔ 97 ≤ c.toNat ∧ c.toNat ≤ 122 := by
    simp [Char.isLower, UInt32.le_iff_toNat_le]
  have upper : c.isUpper = true ↔ 65 ≤ c.toNat ∧ c.toNat ≤ 90 := by
    simp [Char.isUpper, UInt32.le_iff_toNat_le]
  have zero : '0'.toNat = 48 ∧ 'a'.toNat = 97 ∧ 'A'.toNat = 65 := by decide
  simp only [digit?, Text.isDigit_iff, lower, upper, zero]

theorem digit?_digitChar {value : Nat} (inside : value < base) (few : base ≤ 16) :
    digit? base value.digitChar = some value := by
  have digit : ∀ value < 16, digit? 16 (Nat.digitChar value) = some value := by decide
  have known := digit value (Nat.lt_of_lt_of_le inside few)
  rw [digit?, Option.filter_eq_some_iff] at known ⊢
  exact ⟨known.1, decide_eq_true inside⟩

/-- Digits above nine can be written in either case. -/
theorem digit?_toUpper (c : Char) : digit? base c.toUpper = digit? base c := by
  have codes := Text.toNat_toUpper c
  rw [digit?_eq, digit?_eq]
  congr 1
  grind

theorem readFrom_map_toUpper (front : Nat) (digits : List Char) :
    readFrom base front (digits.map Char.toUpper) = readFrom base front digits := by
  induction digits generalizing front with
  | nil => rfl
  | cons c digits ih => simp only [List.map_cons, readFrom, digit?_toUpper, ih]

/-- A decimal digit stands for less than ten, and a letter for ten or more. -/
theorem digit?_cases {value : Nat} {c : Char} (read : digit? base c = some value) :
    (c.isDigit = true ∧ c.toNat = value + 48) ∨ (c.isAlpha = true ∧ 10 ≤ value) := by
  rw [digit?_eq, Option.filter_eq_some_iff] at read
  obtain ⟨known, -⟩ := read
  rw [Text.isAlpha_iff, Text.isDigit_iff]
  grind

/-- Only digits are read. -/
theorem exists_digit?_of_readFrom {front value : Nat} {digits : List Char}
    (read : readFrom base front digits = some value) :
    ∀ c ∈ digits, ∃ value, digit? base c = some value := by
  induction digits generalizing front with
  | nil => exact List.forall_mem_nil _
  | cons c digits ih =>
    obtain ⟨first, digit, later⟩ := Option.bind_eq_some_iff.mp read
    exact List.forall_mem_cons.mpr ⟨⟨first, digit⟩, ih later⟩

variable (some : 1 < base) (few : base ≤ 16)
include some few

theorem readFrom_toDigits (n : Nat) : readFrom base 0 (Nat.toDigits base n) = Option.some n := by
  induction n using Nat.strongRecOn with
  | ind n ih =>
    rw [Nat.toDigits_eq_if some]
    split
    · rename_i single
      rw [readFrom, digit?_digitChar single few]
      simp [readFrom]
    · rename_i more
      have smaller : n / base < n := Nat.div_lt_self (by omega) some
      have last := digit?_digitChar (Nat.mod_lt n (Nat.zero_lt_of_lt some)) few
      rw [readFrom_append, ih _ smaller, Option.bind_some, readFrom, last]
      simp only [Option.bind_some, readFrom]
      rw [Nat.mul_comm, Nat.div_add_mod]

theorem readFrom_padded (width n : Nat) :
    readFrom base 0 (padded base width n) = Option.some n := by
  have zeros (count : Nat) : readFrom base 0 (List.replicate count '0') = Option.some 0 := by
    have zero : digit? base '0' = Option.some 0 :=
      digit?_digitChar (Nat.zero_lt_of_lt some) few
    induction count with
    | zero => rfl
    | succ count ih =>
      rw [List.replicate_succ, readFrom, zero, Option.bind_some, Nat.zero_mul]
      exact ih
  rw [padded, readFrom_append, zeros]
  exact readFrom_toDigits some few n

end

/-- The digits of a number as they are written. -/
def Style.digits (style : Style) (n : Nat) : List Char :=
  let digits := padded style.base style.width n
  if style.capital then digits.map Char.toUpper else digits

theorem Style.toList_write (style : Style) (n : Nat) :
    (style.write n).toList = style.lead.toList ++ style.digits n := by
  simp [write, digits]

section
variable {style : Style} (some : 1 < style.base) (few : style.base ≤ 16)
include some few

theorem readFrom_digits (n : Nat) : readFrom style.base 0 (style.digits n) = Option.some n := by
  rw [Style.digits]
  split
  · rw [readFrom_map_toUpper, readFrom_padded some few]
  · exact readFrom_padded some few style.width n

theorem exists_digit?_digits (n : Nat) :
    ∀ c ∈ style.digits n, ∃ value, digit? style.base c = Option.some value :=
  exists_digit?_of_readFrom (readFrom_digits some few n)

omit few in
/-- A byte has eight digits at most, if there are no zeros in front of it. -/
theorem length_digits_le (value : UInt8) :
    (style.digits value.toNat).length ≤ max style.width 8 := by
  have enough : 2 ^ 8 ≤ style.base ^ 8 := Nat.pow_le_pow_left some 8
  have short : (Nat.toDigits style.base value.toNat).length ≤ 8 := by
    refine (Nat.length_toDigits_le_iff some (by decide)).mpr ?_
    exact Nat.lt_of_lt_of_le value.toNat_lt enough
  have length : (style.digits value.toNat).length =
      (padded style.base style.width value.toNat).length := by
    rw [Style.digits]
    split
    · exact List.length_map _
    · rfl
  rw [length, padded, List.length_append, List.length_replicate]
  omega

omit some few in
theorem digits_ne_nil (n : Nat) : style.digits n ≠ [] := by
  intro none
  rw [Style.digits] at none
  split at none
  all_goals simp [padded, Nat.toDigits_ne_nil] at none

omit some few in
theorem readByte?_unsigned {base : Nat} {c : Char} (unsigned : c ≠ '+') (rest : List Char) :
    readByte? base (c :: rest) =
      ((readFrom base 0 (c :: rest)).filter (· < 256)).map UInt8.ofNat := by
  unfold readByte?
  split
  · rename_i same
    cases same
    contradiction
  · rfl

/-- A byte that is written is the byte that is read. -/
theorem readByte?_digits (value : UInt8) :
    readByte? style.base (style.digits value.toNat) = Option.some value := by
  have digits := exists_digit?_digits some few value.toNat
  have read := readFrom_digits some few value.toNat
  cases written : style.digits value.toNat with
  | nil => exact absurd written (digits_ne_nil _)
  | cons c rest =>
    have unsigned : c ≠ '+' := by
      rintro rfl
      obtain ⟨sign, read⟩ := digits '+' (by simp [written])
      rcases digit?_cases read with ⟨digit, -⟩ | ⟨letter, -⟩ <;> contradiction
    rw [written] at read
    rw [readByte?_unsigned unsigned, read]
    simp [Option.filter, value.toNat_lt]

end

end LS8.Numeral
