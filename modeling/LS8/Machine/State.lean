import LS8.Instruction.Basic
import LS8.Machine.Flags
import LS8.Machine.Memory
import LS8.Machine.Registers

/-! The state of a machine, and its stack. The stack has no storage of its own: it is
the memory from the stack pointer up, so a program can overwrite itself by pushing
and can move the stack by writing R7. -/
namespace LS8

/-- The program counter is wider than an address, because it may stand one past the
last cell. -/
structure Machine where
  memory : Memory
  registers : Registers
  counter : UInt16
  flags : Flags
  halted : Bool
  deriving DecidableEq

namespace Machine

def fresh : Machine := ⟨.blank, .initial, 0, .clear, false⟩

def get (machine : Machine) (register : Register) : UInt8 := machine.registers.get register

def set (machine : Machine) (register : Register) (value : UInt8) : Machine :=
  { machine with registers := machine.registers.set register value }

/-- The address after an instruction that stands at the program counter. -/
def following (machine : Machine) (instruction : Instruction) : UInt16 :=
  machine.counter + UInt16.ofNat instruction.opcode.width

def stackPointer (machine : Machine) : UInt8 := machine.registers.stackPointer

/-- The cell the stack pointer names, which is the last byte pushed. -/
def top (machine : Machine) : UInt8 := machine.memory.read machine.stackPointer

def store (machine : Machine) (address value : UInt8) : Machine :=
  { machine with memory := machine.memory.write address value }

@[simp] theorem get_set_same (machine : Machine) (register : Register) (value : UInt8) :
    (machine.set register value).get register = value := by
  simp [get, set]

@[simp] theorem get_set_other (machine : Machine) (value : UInt8) {register other : Register}
    (apart : other ≠ register) : (machine.set register value).get other = machine.get other := by
  simp [get, set, apart]

@[simp] theorem get_store (machine : Machine) (address value : UInt8) (register : Register) :
    (machine.store address value).get register = machine.get register := rfl

@[simp] theorem get_stackPointer (machine : Machine) :
    machine.get .stackPointer = machine.stackPointer := rfl

@[simp] theorem stackPointer_set (machine : Machine) (value : UInt8) :
    (machine.set .stackPointer value).stackPointer = value :=
  get_set_same machine .stackPointer value

end Machine

/-- Where the stack pointer goes for one more byte. -/
def lowered (pointer : UInt8) : Except AddressFault UInt8 :=
  if pointer = 0 then .error .stackOverflow else .ok (pointer - 1)

/-- Where the stack pointer goes when the byte it names has been taken. -/
def raised (pointer : UInt8) : Except AddressFault UInt8 :=
  if pointer = 255 then .error .stackUnderflow else .ok (pointer + 1)

end LS8
