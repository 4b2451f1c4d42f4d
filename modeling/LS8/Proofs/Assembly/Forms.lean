import LS8.Assembly.Form
import LS8.Instruction.Opcode

/-! The operations of the assembler are those of the machine. Each has a table of its own; that a
mnemonic names the same operation in both, with the same byte and as many operands as that byte
announces, is what assembling and executing have in common. -/
namespace LS8.Assembly

/-- How the operand bytes of an operation are written. -/
def shapes : Opcode → List Shape
  | .hlt | .ret => []
  | .ldi => [.register, .immediate]
  | .mul | .add | .cmp => [.register, .register]
  | .prn | .push | .pop | .call | .jmp | .jeq | .jne => [.register]

/-- The operands written are the operand bytes that the opcode announces. -/
@[simp] theorem length_shapes (opcode : Opcode) :
    (shapes opcode).length = opcode.operandCount := by
  cases opcode <;> simp [shapes, Opcode.operandCount_eq]

namespace Form

def ofOpcode (opcode : Opcode) : Form := ⟨opcode.letters, opcode.byte, Assembly.shapes opcode⟩

/-- The tables agree row by row. -/
theorem all_eq : all = Opcode.all.map ofOpcode := rfl

/-- A mnemonic that one of them knows is known to the other. -/
theorem named?_eq (mnemonic : List Char) :
    named? mnemonic = (Opcode.ofMnemonic? mnemonic).map ofOpcode := by
  rw [named?, all_eq, List.find?_map]
  rfl

end Form
end LS8.Assembly
