import LS8.Proofs.Text.Numeral

/-! What a numeral means. A digit stands for a value in its base and a row of digits for the sum that
the base makes of them, whatever zeros are in front. Reading is the same as meaning, but for one plus
sign before the digits of a byte, which means nothing. -/
namespace LS8.Numeral

variable {base : Nat}

/-- A digit stands for a value below its base, in either case. -/
def StandsFor (base : Nat) (c : Char) (value : Nat) : Prop :=
  value < base ∧ (c = Nat.digitChar value ∨ c = (Nat.digitChar value).toUpper)

/-- One or more digits, the one for the most in front, come to a number. -/
def AmountTo (base : Nat) (digits : List Char) (n : Nat) : Prop :=
  digits ≠ [] ∧ ∃ values, List.Forall₂ (StandsFor base) digits values ∧
    Nat.ofDigits base values.reverse = n

theorem digit?_eq_some_iff (few : base ≤ 16) {c : Char} {value : Nat} :
    digit? base c = some value ↔ StandsFor base c value := by
  constructor
  · intro read
    have inside := digit?_lt read
    have codes : ∀ value < 16,
        (value < 10 → (Nat.digitChar value).toNat = value + 48) ∧
        (10 ≤ value → (Nat.digitChar value).toNat = value + 87 ∧
          (Nat.digitChar value).toUpper.toNat = value + 55) := by
      decide
    obtain ⟨digit, letter⟩ := codes value (Nat.lt_of_lt_of_le inside few)
    refine ⟨inside, ?_⟩
    rw [← Char.toNat_inj, ← Char.toNat_inj]
    rw [digit?_eq, Option.filter_eq_some_iff] at read
    obtain ⟨known, -⟩ := read
    grind
  · rintro ⟨inside, rfl | rfl⟩
    · exact digit?_digitChar inside few
    · rw [digit?_toUpper, digit?_digitChar inside few]

/-- A digit behind others is carried one place over. -/
theorem ofDigits_carry (values : List Nat) (front value : Nat) :
    Nat.ofDigits base (values.reverse ++ [front * base + value]) =
      Nat.ofDigits base ((value :: values).reverse ++ [front]) := by
  rw [List.reverse_cons, List.append_assoc, Nat.ofDigits_append, Nat.ofDigits_append]
  simp only [List.cons_append, List.nil_append, Nat.ofDigits_cons, Nat.ofDigits_nil]
  ring

theorem readFrom_eq_some_iff (few : base ≤ 16) {front n : Nat} {digits : List Char} :
    readFrom base front digits = some n ↔
      ∃ values, List.Forall₂ (StandsFor base) digits values ∧
        Nat.ofDigits base (values.reverse ++ [front]) = n := by
  induction digits generalizing front with
  | nil => simp [readFrom]
  | cons c digits ih =>
    rw [readFrom, Option.bind_eq_some_iff]
    constructor
    · rintro ⟨value, read, later⟩
      obtain ⟨values, stand, sum⟩ := ih.mp later
      have first := (digit?_eq_some_iff few).mp read
      exact ⟨value :: values, .cons first stand, ofDigits_carry values front value ▸ sum⟩
    · rintro ⟨_, stand, sum⟩
      cases stand with
      | @cons _ value _ values first stand =>
        refine ⟨value, (digit?_eq_some_iff few).mpr first, ih.mpr ⟨values, stand, ?_⟩⟩
        rw [ofDigits_carry, sum]

theorem read?_eq_some_iff (few : base ≤ 16) {digits : List Char} {n : Nat} :
    read? base digits = some n ↔ AmountTo base digits n := by
  cases digits with
  | nil => simp [read?, AmountTo]
  | cons c digits =>
    have zero (values : List Nat) : Nat.ofDigits base (values.reverse ++ [0]) =
        Nat.ofDigits base values.reverse := Nat.ofDigits_append_zero values.reverse
    have some : c :: digits ≠ [] := List.cons_ne_nil c digits
    rw [read?, List.isEmpty_cons, if_neg Bool.false_ne_true, readFrom_eq_some_iff few, AmountTo,
      and_iff_right some]
    simp only [zero]

/-- Every row of digits comes to a number, and a short one to a small number. -/
theorem exists_amountTo (large : 1 < base) {digits : List Char} (some : digits ≠ [])
    (stand : ∀ c ∈ digits, ∃ value, StandsFor base c value) :
    ∃ n < base ^ digits.length, AmountTo base digits n := by
  have values : ∃ values, List.Forall₂ (StandsFor base) digits values ∧
      ∀ value ∈ values, value < base := by
    clear some
    induction digits with
    | nil => exact ⟨[], .nil, List.forall_mem_nil _⟩
    | cons c digits ih =>
      obtain ⟨⟨value, first⟩, later⟩ := List.forall_mem_cons.mp stand
      obtain ⟨values, rest, small⟩ := ih later
      exact ⟨value :: values, .cons first rest, List.forall_mem_cons.mpr ⟨first.1, small⟩⟩
  obtain ⟨values, all, small⟩ := values
  refine ⟨_, ?_, some, values, all, rfl⟩
  rw [all.length_eq, ← List.length_reverse]
  exact Nat.ofDigits_lt_base_pow_length large fun value member =>
    small value (List.mem_reverse.mp member)

theorem AmountTo.digit?_of_mem (few : base ≤ 16) {digits : List Char} {n : Nat}
    (amount : AmountTo base digits n) : ∀ c ∈ digits, ∃ value, digit? base c = some value := by
  obtain ⟨-, values, stand, -⟩ := amount
  have read : readFrom base 0 digits = some (Nat.ofDigits base (values.reverse ++ [0])) :=
    (readFrom_eq_some_iff few).mpr ⟨values, stand, rfl⟩
  exact exists_digit?_of_readFrom read

/-- A sign is not a digit. -/
theorem not_amountTo_plus (few : base ≤ 16) {digits : List Char} {n : Nat} :
    ¬AmountTo base ('+' :: digits) n := by
  intro amount
  obtain ⟨value, read⟩ := amount.digit?_of_mem few '+' List.mem_cons_self
  rcases digit?_cases read with ⟨digit, -⟩ | ⟨letter, -⟩ <;> contradiction

/-- A byte is read from its digits, and from a plus sign and its digits. -/
theorem readByte?_eq_some_iff (few : base ≤ 16) {numeral : List Char} {value : UInt8} :
    readByte? base numeral = some value ↔ AmountTo base numeral value.toNat ∨
      ∃ digits, numeral = '+' :: digits ∧ AmountTo base digits value.toNat := by
  have narrow {digits : List Char} :
      ((read? base digits).filter (· < 256)).map UInt8.ofNat = some value ↔
        AmountTo base digits value.toNat := by
    rw [← read?_eq_some_iff few, Option.map_eq_some_iff]
    constructor
    · rintro ⟨n, read, rfl⟩
      obtain ⟨known, small⟩ := Option.filter_eq_some_iff.mp read
      rw [known, UInt8.toNat_ofNat_of_lt' (of_decide_eq_true small)]
    · intro known
      have small : decide (value.toNat < 256) = true := decide_eq_true value.toNat_lt
      exact ⟨value.toNat, Option.filter_eq_some_iff.mpr ⟨known, small⟩, UInt8.ofNat_toNat⟩
  by_cases sign : ∃ digits, numeral = '+' :: digits
  · obtain ⟨digits, rfl⟩ := sign
    simp [readByte?, narrow, not_amountTo_plus few]
  · have unsigned : readByte? base numeral =
        ((read? base numeral).filter (· < 256)).map UInt8.ofNat := by
      unfold readByte?
      split
      · exact absurd ⟨_, rfl⟩ sign
      · rfl
    rw [unsigned, narrow, or_iff_left]
    rintro ⟨digits, same, -⟩
    exact sign ⟨digits, same⟩

end LS8.Numeral
