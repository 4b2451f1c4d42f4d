import LS8.Instruction.Opcode

/-! Instructions: an operation with the operand bytes it takes, as bytes. A register
is still a byte here, since a byte above seven is refused only when the instruction
executes. `encode` writes an instruction as it stands in memory. -/
namespace LS8

inductive Instruction
  | hlt
  | ldi (register value : UInt8)
  | prn (register : UInt8)
  | mul (first second : UInt8)
  | add (first second : UInt8)
  | push (register : UInt8)
  | pop (register : UInt8)
  | call (register : UInt8)
  | ret
  | cmp (first second : UInt8)
  | jmp (register : UInt8)
  | jeq (register : UInt8)
  | jne (register : UInt8)
  deriving DecidableEq, Repr

namespace Instruction

def opcode : Instruction → Opcode
  | hlt => .hlt
  | ldi .. => .ldi
  | prn .. => .prn
  | mul .. => .mul
  | add .. => .add
  | push .. => .push
  | pop .. => .pop
  | call .. => .call
  | ret => .ret
  | cmp .. => .cmp
  | jmp .. => .jmp
  | jeq .. => .jeq
  | jne .. => .jne

/-- The operand bytes, as many as the opcode announces. -/
def operands : Instruction → List UInt8
  | hlt | ret => []
  | ldi first second | mul first second | add first second | cmp first second => [first, second]
  | prn register | push register | pop register | call register
  | jmp register | jeq register | jne register => [register]

/-- The instruction with the given operand bytes; those that the opcode does not
take are dropped. -/
def ofOperands (opcode : Opcode) (first second : UInt8) : Instruction :=
  match opcode with
  | .hlt => hlt
  | .ldi => ldi first second
  | .prn => prn first
  | .mul => mul first second
  | .add => add first second
  | .push => push first
  | .pop => pop first
  | .call => call first
  | .ret => ret
  | .cmp => cmp first second
  | .jmp => jmp first
  | .jeq => jeq first
  | .jne => jne first

@[simp] theorem opcode_ofOperands (opcode : Opcode) (first second : UInt8) :
    (ofOperands opcode first second).opcode = opcode := by
  cases opcode <;> rfl

/-- A byte that the opcode does not take makes no difference to the instruction. -/
theorem ofOperands_congr {opcode : Opcode} {first first' second second' : UInt8}
    (firstTaken : 1 ≤ opcode.operandCount → first = first')
    (secondTaken : 2 ≤ opcode.operandCount → second = second') :
    ofOperands opcode first second = ofOperands opcode first' second' := by
  cases opcode <;> simp_all [ofOperands, Opcode.operandCount_eq]

theorem operands_ofOperands (opcode : Opcode) (first second : UInt8) :
    (ofOperands opcode first second).operands = [first, second].take opcode.operandCount := by
  cases opcode <;> simp [ofOperands, operands, Opcode.operandCount_eq]

@[simp] theorem length_operands (instruction : Instruction) :
    instruction.operands.length = instruction.opcode.operandCount := by
  cases instruction <;> simp [opcode, operands, Opcode.operandCount_eq]

/-- Opcode byte and operand bytes, as they stand in memory. -/
def encode (instruction : Instruction) : List UInt8 :=
  instruction.opcode.byte :: instruction.operands

theorem length_encode (instruction : Instruction) :
    instruction.encode.length = instruction.opcode.width := by
  simp [encode, Opcode.width]

/-- The operand byte at a position, zero for one that is not taken. -/
def operandAt (instruction : Instruction) (position : Nat) : UInt8 :=
  instruction.operands.getD position 0

end Instruction
end LS8
