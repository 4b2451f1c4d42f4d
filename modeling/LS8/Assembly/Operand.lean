import LS8.Assembly.Form
import LS8.Assembly.Label

/-! Operands as they are written: registers, numbers and labels. Whether a word is a
number is decided by its first character, so a word that starts with a digit is never
a label. -/
namespace LS8.Assembly

inductive Operand
  | byte (value : UInt8)
  | label (label : Label)
  deriving DecidableEq

/-- A register is a letter R of either case and one digit. -/
def readRegister : List Char → Except Cause UInt8
  | [letter, digit] =>
    if (letter = 'R' ∨ letter = 'r') ∧ '0' ≤ digit ∧ digit ≤ '7' then
      .ok (UInt8.ofNat (digit.toNat - '0'.toNat))
    else .error .invalidOperand
  | _ => .error .invalidOperand

/-- Decimal unless marked otherwise. The marks are in lower case only. -/
def readNumber? : List Char → Option UInt8
  | '0' :: 'x' :: digits => Numeral.readByte? 16 digits
  | '0' :: 'b' :: digits => Numeral.readByte? 2 digits
  | digits => Numeral.readByte? 10 digits

def readImmediate (word : List Char) : Except Cause Operand :=
  if word.head?.any Char.isDigit then
    match readNumber? word with
    | some value => .ok (.byte value)
    | none => .error .invalidOperand
  else (Label.read word).map .label

def Shape.read : Shape → List Char → Except Cause Operand
  | register, word => (readRegister word).map .byte
  | immediate, word => readImmediate word

theorem readRegister_lt {word : List Char} {index : UInt8} (h : readRegister word = .ok index) :
    index.toNat < 8 := by
  unfold readRegister at h
  split at h
  · split at h
    · rename_i digit accepted
      obtain ⟨-, -, high⟩ := accepted
      have high : digit.toNat ≤ '7'.toNat := high
      have low : '0'.toNat = 48 ∧ '7'.toNat = 55 := by decide
      rw [← Except.ok.inj h, UInt8.toNat_ofNat']
      omega
    · contradiction
  · contradiction

end LS8.Assembly
