import LS8.Machine.Fault

/-! Arithmetic: the two operations of the arithmetic unit that compute a value. A sum
or product keeps only its low eight bits. Comparing is not among them, for it has no
result but the flags. -/
namespace LS8

inductive Arithmetic
  | add | mul
  deriving DecidableEq, Repr

namespace Arithmetic

def apply : Arithmetic → UInt8 → UInt8 → UInt8
  | add, first, second => first + second
  | mul, first, second => first * second

theorem toNat_apply_add (first second : UInt8) :
    (add.apply first second).toNat = (first.toNat + second.toNat) % 256 := by
  simp [apply]

theorem toNat_apply_mul (first second : UInt8) :
    (mul.apply first second).toNat = (first.toNat * second.toNat) % 256 := by
  simp [apply]

/-- The computation an opcode asks for. -/
def ofOpcode : Opcode → Except Fault Arithmetic
  | .add => .ok add
  | .mul => .ok mul
  | opcode => .error (.unsupportedArithmetic opcode)

end Arithmetic
end LS8
