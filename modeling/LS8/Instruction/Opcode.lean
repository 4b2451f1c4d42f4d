/-! Opcodes: the thirteen operations, the byte each is encoded by, and its mnemonic.
The byte is laid out as two bits counting the operand bytes that follow, one bit
for operations of the arithmetic unit, one for operations that set the program
counter themselves, and four bits of identifier; so the length of an instruction
is read off its first byte. -/
namespace LS8

inductive Opcode
  | hlt | ldi | prn | mul | add | push | pop | call | ret | cmp | jmp | jeq | jne
  deriving DecidableEq, Repr

namespace Opcode

/-- In the order of the instruction table. -/
def all : List Opcode := [hlt, ldi, prn, mul, add, push, pop, call, ret, cmp, jmp, jeq, jne]

@[simp] theorem mem_all (opcode : Opcode) : opcode ∈ all := by cases opcode <;> decide

def byte : Opcode → UInt8
  | hlt => 0b00000001
  | ldi => 0b10000010
  | prn => 0b01000111
  | mul => 0b10100010
  | add => 0b10100000
  | push => 0b01000101
  | pop => 0b01000110
  | call => 0b01010000
  | ret => 0b00010001
  | cmp => 0b10100111
  | jmp => 0b01010100
  | jeq => 0b01010101
  | jne => 0b01010110

theorem byte_injective {first second : Opcode} (h : first.byte = second.byte) :
    first = second := by
  cases first <;> cases second <;> first | rfl | exact absurd h (by decide)

/-- The operation a byte encodes; most bytes encode none. -/
def ofByte? (byte : UInt8) : Option Opcode := all.find? fun opcode => opcode.byte = byte

@[simp] theorem ofByte?_byte (opcode : Opcode) : ofByte? opcode.byte = some opcode := by
  cases opcode <;> rfl

theorem ofByte?_eq_some_iff {byte : UInt8} {opcode : Opcode} :
    ofByte? byte = some opcode ↔ byte = opcode.byte := by
  constructor
  · intro found
    have encoded := List.find?_some found
    exact (of_decide_eq_true encoded).symm
  · rintro rfl
    simp

/-- The two high bits of the opcode byte count its operand bytes. -/
def operandCount (opcode : Opcode) : Nat := (opcode.byte >>> 6).toNat

/-- Bytes that the whole instruction takes in memory. -/
def width (opcode : Opcode) : Nat := opcode.operandCount + 1

def usesArithmeticUnit (opcode : Opcode) : Bool := opcode.byte &&& 0b00100000 != 0

/-- Operations after which the program counter is not simply advanced. -/
def setsCounter (opcode : Opcode) : Bool := opcode.byte &&& 0b00010000 != 0

theorem operandCount_eq (opcode : Opcode) : opcode.operandCount =
    match opcode with
    | hlt | ret => 0
    | ldi | mul | add | cmp => 2
    | prn | push | pop | call | jmp | jeq | jne => 1 := by
  cases opcode <;> decide

theorem usesArithmeticUnit_iff {opcode : Opcode} :
    opcode.usesArithmeticUnit = true ↔ opcode = mul ∨ opcode = add ∨ opcode = cmp := by
  cases opcode <;> decide

theorem setsCounter_iff {opcode : Opcode} : opcode.setsCounter = true ↔
    opcode = call ∨ opcode = ret ∨ opcode = jmp ∨ opcode = jeq ∨ opcode = jne := by
  cases opcode <;> decide

theorem operandCount_le_two (opcode : Opcode) : opcode.operandCount ≤ 2 := by
  cases opcode <;> decide

/-- The letters of the mnemonic, capitals all. -/
def letters : Opcode → List Char
  | hlt => ['H', 'L', 'T']
  | ldi => ['L', 'D', 'I']
  | prn => ['P', 'R', 'N']
  | mul => ['M', 'U', 'L']
  | add => ['A', 'D', 'D']
  | push => ['P', 'U', 'S', 'H']
  | pop => ['P', 'O', 'P']
  | call => ['C', 'A', 'L', 'L']
  | ret => ['R', 'E', 'T']
  | cmp => ['C', 'M', 'P']
  | jmp => ['J', 'M', 'P']
  | jeq => ['J', 'E', 'Q']
  | jne => ['J', 'N', 'E']

def mnemonic (opcode : Opcode) : String := String.ofList opcode.letters

/-- The operation a word names. The case of ASCII letters does not matter; no other
letter stands for one of them. -/
def ofMnemonic? (word : List Char) : Option Opcode :=
  all.find? fun opcode => opcode.letters = word.map Char.toUpper

@[simp] theorem ofMnemonic?_letters (opcode : Opcode) :
    ofMnemonic? opcode.letters = some opcode := by
  cases opcode <;> decide

end Opcode
end LS8
