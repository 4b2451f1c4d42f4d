/-! Numerals: natural numbers written in a base with zeros in front, and digits
read back. Writing follows a `Numeral.Style`, one value for each kind of number
the computer shows; reading accepts letters of either case and any number of
leading zeros. -/
namespace LS8

/-- How a number is written: what stands before it, its base, the fewest digits
shown, and whether digits above nine are capital letters. -/
structure Numeral.Style where
  lead : String
  base : Nat
  width : Nat
  capital : Bool

namespace Numeral

/-- The digits of a number, with zeros in front where they are fewer than `width`. -/
def padded (base width n : Nat) : List Char :=
  let digits := Nat.toDigits base n
  List.replicate (width - digits.length) '0' ++ digits

theorem width_le_length_padded (base width n : Nat) : width ≤ (padded base width n).length := by
  simp only [padded, List.length_append, List.length_replicate]
  omega

/-- Numbers wide enough already are written without a zero in front. -/
theorem padded_of_width_le {base width n : Nat} (wide : width ≤ (Nat.toDigits base n).length) :
    padded base width n = Nat.toDigits base n := by
  simp [padded, Nat.sub_eq_zero_of_le wide]

def Style.write (style : Style) (n : Nat) : String :=
  let digits := padded style.base style.width n
  style.lead ++ String.ofList (if style.capital then digits.map Char.toUpper else digits)

/-- Counts and printed values. -/
def decimal : Style := ⟨"", 10, 1, false⟩

theorem decimal_write (n : Nat) : decimal.write n = toString n := by
  have digits : 1 ≤ (Nat.toDigits 10 n).length := Nat.length_toDigits_pos
  simp only [Style.write, decimal, padded_of_width_le digits]
  simp [toString, Nat.repr]

/-- Addresses and bytes in messages and records. -/
def address : Style := ⟨"0x", 16, 2, false⟩

/-- Addresses that lie past the end of memory, which two digits cannot hold. -/
def wideAddress : Style := ⟨"0x", 16, 3, false⟩

/-- Bytes in a row, as in a display of the registers. -/
def dump : Style := ⟨"", 16, 2, true⟩

/-- Flag bits. -/
def bits : Style := ⟨"0b", 2, 3, false⟩

/-- The value of a digit, a letter of either case standing for ten and above.
The base decides whether the digit is one of its own. -/
def digit? (base : Nat) (c : Char) : Option Nat :=
  let value :=
    if c.isDigit then some (c.toNat - '0'.toNat)
    else if c.isLower then some (c.toNat - 'a'.toNat + 10)
    else if c.isUpper then some (c.toNat - 'A'.toNat + 10)
    else none
  value.filter (· < base)

theorem digit?_lt {base value : Nat} {c : Char} (h : digit? base c = some value) :
    value < base := by
  simpa using (Option.filter_eq_some_iff.mp h).2

/-- Reads digits after those that gave `front`. -/
def readFrom (base front : Nat) : List Char → Option Nat
  | [] => some front
  | c :: rest => (digit? base c).bind fun value => readFrom base (front * base + value) rest

/-- The number written by one or more digits of the base. -/
def read? (base : Nat) (digits : List Char) : Option Nat :=
  if digits.isEmpty then none else readFrom base 0 digits

/-- A byte in the base. One plus sign may stand before the digits; a minus sign may not,
not even before a zero. -/
def readByte? (base : Nat) (numeral : List Char) : Option UInt8 :=
  let digits := match numeral with
    | '+' :: digits => digits
    | digits => digits
  ((read? base digits).filter (· < 256)).map UInt8.ofNat

end Numeral
end LS8
