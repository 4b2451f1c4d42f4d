/-! Forms: how operations are written, and the byte that each is assembled to. The assembler has
a table of its own for this and asks nothing of the machine that the program is for; that the
two know the same operations is proved elsewhere. -/
namespace LS8.Assembly

/-- What an operation takes at an operand's place. -/
inductive Shape
  | register | immediate
  deriving DecidableEq, Repr

structure Form where
  name : List Char
  byte : UInt8
  shapes : List Shape
  deriving DecidableEq, Repr

namespace Form

def all : List Form := [
  ⟨['H', 'L', 'T'], 0b00000001, []⟩,
  ⟨['L', 'D', 'I'], 0b10000010, [.register, .immediate]⟩,
  ⟨['P', 'R', 'N'], 0b01000111, [.register]⟩,
  ⟨['M', 'U', 'L'], 0b10100010, [.register, .register]⟩,
  ⟨['A', 'D', 'D'], 0b10100000, [.register, .register]⟩,
  ⟨['P', 'U', 'S', 'H'], 0b01000101, [.register]⟩,
  ⟨['P', 'O', 'P'], 0b01000110, [.register]⟩,
  ⟨['C', 'A', 'L', 'L'], 0b01010000, [.register]⟩,
  ⟨['R', 'E', 'T'], 0b00010001, []⟩,
  ⟨['C', 'M', 'P'], 0b10100111, [.register, .register]⟩,
  ⟨['J', 'M', 'P'], 0b01010100, [.register]⟩,
  ⟨['J', 'E', 'Q'], 0b01010101, [.register]⟩,
  ⟨['J', 'N', 'E'], 0b01010110, [.register]⟩]

/-- The form that a mnemonic names. The case of ASCII letters does not matter. -/
def named? (mnemonic : List Char) : Option Form :=
  all.find? fun form => form.name = mnemonic.map Char.toUpper

end Form
end LS8.Assembly
