import LS8.Machine.Fault

/-! Registers: eight bytes, the last of which is the stack pointer. An operand byte
names a register only up to seven; `Register.ofByte` is where the others are refused. -/
namespace LS8

/-- The index of a register that exists. -/
abbrev Register := Fin 8

namespace Register

/-- R7 is an ordinary register that the stack instructions also move. -/
def stackPointer : Register := 7

def ofByte (index : UInt8) : Except AddressFault Register :=
  if valid : index.toNat < 8 then .ok ⟨index.toNat, valid⟩ else .error (.register index)

end Register

structure Registers where
  values : Vector UInt8 8
  deriving DecidableEq

namespace Registers

/-- The stack grows down from just below the top of memory. -/
def stackStart : UInt8 := 0xf4

def initial : Registers := ⟨#v[0, 0, 0, 0, 0, 0, 0, stackStart]⟩

def get (registers : Registers) (register : Register) : UInt8 := registers.values[register]

def set (registers : Registers) (register : Register) (value : UInt8) : Registers :=
  ⟨registers.values.set register value⟩

@[simp] theorem get_set_same (registers : Registers) (register : Register) (value : UInt8) :
    (registers.set register value).get register = value := by
  simp [get, set]

@[simp] theorem get_set_other (registers : Registers) (value : UInt8) {register other : Register}
    (apart : other ≠ register) :
    (registers.set register value).get other = registers.get other := by
  have distinct : register.val ≠ other.val := fun same => apart (Fin.ext same.symm)
  simp [get, set, Vector.getElem_set_ne, distinct]

theorem ext_get {first second : Registers}
    (same : ∀ register, first.get register = second.get register) : first = second := by
  have values : first.values = second.values :=
    Vector.ext fun index bound => same ⟨index, bound⟩
  cases first; cases second; simp_all

def stackPointer (registers : Registers) : UInt8 := registers.get .stackPointer

def setStackPointer (registers : Registers) (value : UInt8) : Registers :=
  registers.set .stackPointer value

/-- The value of the register a byte names. -/
def lookup (registers : Registers) (index : UInt8) : Except AddressFault UInt8 :=
  (Register.ofByte index).map registers.get

/-- The values from R0 to R7. -/
def toList (registers : Registers) : List UInt8 := registers.values.toList

def display (registers : Registers) : String :=
  " ".intercalate (registers.toList.map fun value => Numeral.dump.write value.toNat)

end Registers
end LS8
