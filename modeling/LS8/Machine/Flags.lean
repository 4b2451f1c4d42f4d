import LS8.Text.Numeral

/-! Flags: the outcome of the last comparison, one bit for each of the three ways in
which two bytes compare. No bit is set until something has been compared. -/
namespace LS8

structure Flags where
  bits : UInt8
  deriving DecidableEq, Repr

namespace Flags

def equalBit : UInt8 := 0b001
def greaterBit : UInt8 := 0b010
def lessBit : UInt8 := 0b100

def clear : Flags := ⟨0⟩

/-- Bytes compare as unsigned numbers. -/
def ofComparison (first second : UInt8) : Flags :=
  if first = second then ⟨equalBit⟩
  else if second < first then ⟨greaterBit⟩
  else ⟨lessBit⟩

def isEqual (flags : Flags) : Bool := flags.bits &&& equalBit != 0
def isGreater (flags : Flags) : Bool := flags.bits &&& greaterBit != 0
def isLess (flags : Flags) : Bool := flags.bits &&& lessBit != 0

@[simp] theorem isEqual_clear : clear.isEqual = false := by decide

def display (flags : Flags) : String :=
  "Flags(" ++ Numeral.bits.write flags.bits.toNat ++ ")"

end Flags
end LS8
