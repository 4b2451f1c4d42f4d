import LS8.Proofs.Machine.Bounded
import LS8.Proofs.Text.Digits

/-! What a snapshot shows. Each of the three bytes is peeked at on its own, at an address that is
computed in sixteen bits before it is compared with the end of memory. At the last two program
counters that there are, this sum overflows and nothing is shown, where zeros should be. No machine
gets there, but a snapshot can be asked for at any program counter. -/
namespace LS8

namespace Numeral

/-- A number in capital hexadecimal digits. There are two of them at least, and no more zeros in
front than it takes to make two. -/
structure IsDump (digits : List Char) (n : Nat) : Prop where
  amount : AmountTo 16 digits n
  capital : ∀ c ∈ digits, c.isLower = false
  wide : 2 ≤ digits.length
  tight : 2 < digits.length → digits.head? ≠ some '0'

/-- Digits start with a zero only if the number is zero. -/
theorem head?_toDigits_ne {base n : Nat} (large : 1 < base) (few : base ≤ 16) (positive : 0 < n) :
    (Nat.toDigits base n).head? ≠ some '0' := by
  induction n using Nat.strongRecOn with
  | ind n ih =>
    rw [Nat.toDigits_eq_if large]
    split
    · have digits : ∀ n < 16, 0 < n → Nat.digitChar n ≠ '0' := by decide
      simpa using digits n (by omega) positive
    · rename_i more
      have smaller : n / base < n := Nat.div_lt_self positive large
      have left : 0 < n / base := Nat.div_pos (Nat.le_of_not_lt more) (Nat.zero_lt_of_lt large)
      rw [List.head?_append_of_ne_nil _ Nat.toDigits_ne_nil]
      exact ih _ smaller left

theorem isDump_write (n : Nat) : IsDump (dump.write n).toList n := by
  have written : (dump.write n).toList = (padded 16 2 n).map Char.toUpper := Style.toList_write dump n
  rw [written]
  have some : (padded 16 2 n).map Char.toUpper ≠ [] := by
    simp [padded, Nat.toDigits_ne_nil]
  refine ⟨(read?_eq_some_iff (by decide)).mp ?_, ?_, ?_, ?_⟩
  · rw [read?, if_neg (by simpa using some), readFrom_map_toUpper]
    exact readFrom_padded (by decide) (by decide) 2 n
  · intro c member
    obtain ⟨digit, -, rfl⟩ := List.mem_map.mp member
    exact digit.isLower_toUpper_eq_false
  · rw [List.length_map]
    exact width_le_length_padded 16 2 n
  · intro long
    rw [List.length_map, padded, List.length_append, List.length_replicate] at long
    have wide : 2 < (Nat.toDigits 16 n).length := by omega
    have positive : 0 < n := by
      rcases Nat.eq_zero_or_pos n with rfl | positive
      · contradiction
      · exact positive
    rw [padded_of_width_le (Nat.le_of_lt wide), List.head?_map]
    intro zero
    obtain ⟨c, first, same⟩ := Option.map_eq_some_iff.mp zero
    -- no letter is a zero in another case
    have same : c.toUpper = '0'.toUpper := same.trans (by decide)
    rcases Text.eq_or_isAlpha_of_toUpper same with rfl | ⟨-, letter⟩
    · exact head?_toDigits_ne (by decide) (by decide) positive first
    · contradiction

end Numeral

namespace Snapshot

open Numeral

/-- A line that shows the program counter of a snapshot, its three bytes and its registers. -/
def IsLine (snapshot : Snapshot) (line : String) : Prop :=
  ∃ (counter : List Char) (bytes registers : List (List Char)),
    IsDump counter snapshot.counter.toNat ∧
    List.Forall₂ (fun digits byte => IsDump digits byte.toNat) bytes snapshot.bytes.toList ∧
    List.Forall₂ (fun digits byte => IsDump digits byte.toNat) registers
      snapshot.registers.toList ∧
    line.toList = "TRACE: ".toList ++ counter ++ " | ".toList ++ [' '].intercalate bytes ++
      " | ".toList ++ [' '].intercalate registers

theorem isLine_text (snapshot : Snapshot) : snapshot.IsLine snapshot.text := by
  have dumped (bytes : List UInt8) : List.Forall₂ (fun digits byte => IsDump digits byte.toNat)
      (bytes.map fun byte => (dump.write byte.toNat).toList) bytes :=
    List.forall₂_map_left_iff.mpr (List.forall₂_same.mpr fun byte _ => isDump_write byte.toNat)
  refine ⟨_, _, _, isDump_write _, dumped _, dumped _, ?_⟩
  simp [text, Registers.display, String.toList_intercalate, Function.comp_def]

/-- Where there is a snapshot, it has the program counter and the registers that it is taken of, and
the bytes from that program counter on, with zeros for what is past memory; and its line shows them.
There is one unless the address of its last byte takes more than sixteen bits. -/
theorem capture_shows (memory : Memory) (registers : Registers) (counter : UInt16) :
    (counter.toNat + 2 < 65536 ∧
      ∃ snapshot, capture memory registers counter = some snapshot ∧
        snapshot.counter = counter ∧ snapshot.registers = registers ∧
        (∀ index : Fin 3, snapshot.bytes.get index =
          memory.toList.getD (counter.toNat + index) 0) ∧
        snapshot.IsLine snapshot.text) ∨
    (65536 ≤ counter.toNat + 2 ∧ capture memory registers counter = none) := by
  rcases Nat.lt_or_ge (counter.toNat + 2) 65536 with low | high
  · obtain ⟨snapshot, taken, same, held, bytes⟩ := exists_capture memory registers low
    exact .inl ⟨low, snapshot, taken, same, held, bytes, isLine_text snapshot⟩
  · exact .inr ⟨high, capture_of_le memory registers high⟩

/-- At the last program counter there is no snapshot, although there are three bytes to show: all are
past memory, and so zero. -/
theorem capture_overflows :
    capture (Memory.blank.write 0 1) .initial 0xffff = none ∧
    ∀ index : Fin 3,
      (Memory.blank.write 0 1).toList.getD ((0xffff : UInt16).toNat + index) 0 = 0 := by
  decide +kernel

end Snapshot
end LS8
