import LS8.Instruction.Opcode
import LS8.Text.Numeral

/-! Faults: why the machine refuses to go on. An addressing fault names an index or
an address that does not exist; the other faults belong to an instruction or to a
machine that has halted. Causes are kept apart from their wording, which is in one
function for each kind. -/
namespace LS8

inductive AddressFault
  | register (index : UInt8)
  | pastMemory (address : UInt16)
  | stackOverflow
  | stackUnderflow
  | programTooLarge (size : Nat)
  deriving DecidableEq, Repr

namespace AddressFault

def message : AddressFault → String
  | register index =>
    "register index " ++ Numeral.decimal.write index.toNat ++ " is out of range (R0-R7)"
  | pastMemory address =>
    "address " ++ Numeral.wideAddress.write address.toNat ++ " is past the end of memory"
  | stackOverflow => "stack overflow: stack pointer cannot go below 0x00"
  | stackUnderflow => "stack underflow: stack pointer cannot go above 0xff"
  | programTooLarge size =>
    "program of " ++ Numeral.decimal.write size ++ " bytes does not fit in 256 bytes of memory"

end AddressFault

inductive Fault
  | illegalInstruction (opcode : UInt8) (counter : UInt16)
  | addressing (cause : AddressFault)
  | unsupportedArithmetic (opcode : Opcode)
  | halted
  deriving DecidableEq, Repr

namespace Fault

def message : Fault → String
  | illegalInstruction opcode counter =>
    "illegal instruction " ++ Numeral.address.write opcode.toNat ++ " at " ++
      Numeral.address.write counter.toNat
  | addressing cause => "addressing fault: " ++ cause.message
  | unsupportedArithmetic opcode => "unsupported ALU operation " ++ opcode.mnemonic
  | halted => "the machine is halted"

end Fault
end LS8
