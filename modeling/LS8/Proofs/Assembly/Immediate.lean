import LS8.Proofs.Text.Digits
import LS8.Proofs.Assembly.Writing

/-! Numbers as operands. A number is to be written with a mark for its base, or none for decimal,
and digits. One spelling more is read: a plus sign between the mark and the digits. It is the only
one, so that of the words without a plus sign those are read that should be. -/
namespace LS8.Assembly

open Numeral (AmountTo)

/-- What tells the base of the digits behind it. -/
def marks : List (List Char × Nat) := [([], 10), (['0', 'x'], 16), (['0', 'b'], 2)]

/-- A word that is a mark and digits for a byte, with a sign between them. -/
def WrittenWith (sign word : List Char) (value : UInt8) : Prop :=
  ∃ mark base digits, (mark, base) ∈ marks ∧ word = mark ++ sign ++ digits ∧
    AmountTo base digits value.toNat

/-- A byte as it is to be written. -/
def Written : List Char → UInt8 → Prop := WrittenWith []

def WrittenWithPlus : List Char → UInt8 → Prop := WrittenWith ['+']

theorem WrittenWithPlus.plus {word : List Char} {value : UInt8}
    (written : WrittenWithPlus word value) : '+' ∈ word := by
  obtain ⟨mark, base, digits, -, rfl, -⟩ := written
  simp

section
variable {sign word digits : List Char} {value : UInt8}

theorem writtenWith_iff : WrittenWith sign word value ↔
    (∃ digits, word = sign ++ digits ∧ AmountTo 10 digits value.toNat) ∨
    (∃ digits, word = '0' :: 'x' :: (sign ++ digits) ∧ AmountTo 16 digits value.toNat) ∨
    (∃ digits, word = '0' :: 'b' :: (sign ++ digits) ∧ AmountTo 2 digits value.toNat) := by
  constructor
  · rintro ⟨mark, base, digits, marked, rfl, amount⟩
    simp only [marks, List.mem_cons, Prod.mk.injEq, List.not_mem_nil, or_false] at marked
    rcases marked with ⟨rfl, rfl⟩ | ⟨rfl, rfl⟩ | ⟨rfl, rfl⟩
    · exact .inl ⟨digits, rfl, amount⟩
    · exact .inr (.inl ⟨digits, rfl, amount⟩)
    · exact .inr (.inr ⟨digits, rfl, amount⟩)
  · rintro (⟨digits, rfl, amount⟩ | ⟨digits, rfl, amount⟩ | ⟨digits, rfl, amount⟩)
    · exact ⟨[], 10, digits, by decide, rfl, amount⟩
    · exact ⟨['0', 'x'], 16, digits, by decide, rfl, amount⟩
    · exact ⟨['0', 'b'], 2, digits, by decide, rfl, amount⟩

/-- No letter of a mark is a decimal digit. -/
theorem not_amountTo_marked {letter : Char} (marked : letter.isDigit = false) {n : Nat} :
    ¬AmountTo 10 ('0' :: letter :: digits) n := by
  intro amount
  obtain ⟨value, read⟩ := amount.digit?_of_mem (by decide) letter (by simp)
  exact absurd (isDigit_of_digit? (by decide) read) (by simp [marked])

theorem readNumber?_eq_some_iff (opens : word.head?.any Char.isDigit = true) :
    readNumber? word = some value ↔ Written word value ∨ WrittenWithPlus word value := by
  have unsigned (rest : List Char) : word ≠ '+' :: rest := by
    rintro rfl
    contradiction
  rw [Written, WrittenWithPlus, writtenWith_iff, writtenWith_iff]
  unfold readNumber?
  split
  · simp [Numeral.readByte?_eq_some_iff, not_amountTo_marked]
  · simp [Numeral.readByte?_eq_some_iff, not_amountTo_marked]
  · rename_i hex binary
    have hex (rest : List Char) : word ≠ '0' :: 'x' :: rest := hex rest
    have binary (rest : List Char) : word ≠ '0' :: 'b' :: rest := binary rest
    simp [Numeral.readByte?_eq_some_iff, unsigned, hex, binary]

end

/-- A word that starts with a digit is read as a byte or refused. It is read as a byte if it is
written as that byte, with a plus sign or without one, and in no other case. -/
theorem readImmediate_number {word : List Char} (opens : word.head?.any Char.isDigit = true) :
    (∀ value, readImmediate word = .ok (.byte value) ↔
      Written word value ∨ WrittenWithPlus word value) ∧
    (readImmediate word = .error .invalidOperand ↔
      ∀ value, ¬Written word value ∧ ¬WrittenWithPlus word value) ∧
    ('+' ∉ word → ∀ value, readImmediate word = .ok (.byte value) ↔ Written word value) := by
  have byte (value : UInt8) : readImmediate word = .ok (.byte value) ↔
      Written word value ∨ WrittenWithPlus word value := by
    rw [← readNumber?_eq_some_iff opens, readImmediate, if_pos opens]
    cases readNumber? word <;> simp
  refine ⟨byte, ?_, ?_⟩
  · simp only [← not_or, ← byte]
    rw [readImmediate, if_pos opens]
    cases readNumber? word <;> simp
  · intro unsigned value
    rw [byte, or_iff_left fun written => unsigned written.plus]

theorem readImmediate_number_signed :
    readImmediate ['0', 'x', '+', '5'] = .ok (.byte 5) ∧
    readImmediate ['0', 'x', 'f', '4'] = .ok (.byte 0xf4) := by
  have five : AmountTo 16 ['5'] (5 : UInt8).toNat :=
    ⟨by decide, [5], .cons ⟨by decide, by decide⟩ .nil, by decide⟩
  have many : AmountTo 16 ['f', '4'] (0xf4 : UInt8).toNat :=
    ⟨by decide, [15, 4], .cons ⟨by decide, by decide⟩ (.cons ⟨by decide, by decide⟩ .nil),
      by decide⟩
  have signed : WrittenWithPlus ['0', 'x', '+', '5'] 5 :=
    ⟨['0', 'x'], 16, ['5'], by decide, rfl, five⟩
  have plain : Written ['0', 'x', 'f', '4'] 0xf4 :=
    ⟨['0', 'x'], 16, ['f', '4'], by decide, rfl, many⟩
  exact ⟨((readImmediate_number (by decide)).1 5).mpr (.inr signed),
    ((readImmediate_number (by decide)).2.2 (by decide) 0xf4).mpr plain⟩

/-- A word with a plus sign is read, and yet no byte is to be written so. -/
theorem readImmediate_plus_unwritten :
    readImmediate ['0', 'x', '+', '5'] = .ok (.byte 5) ∧
    ∀ value, ¬Written ['0', 'x', '+', '5'] value := by
  refine ⟨rfl, fun value written => ?_⟩
  simp [Written, writtenWith_iff, not_amountTo_marked, Numeral.not_amountTo_plus] at written

end LS8.Assembly
