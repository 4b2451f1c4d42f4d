import LS8.Machine.State

/-! Snapshots: the program counter, the three bytes from it on, and the registers, as
shown before an instruction is executed. Three bytes are shown whatever the length
of the instruction, and cells past the end of memory show as zero; but an address has
sixteen bits, so that there is no snapshot at the last two program counters. -/
namespace LS8

/-- The byte at a wide address, zero past the end of memory. -/
def Memory.peek (memory : Memory) (address : UInt16) : UInt8 :=
  match memory.fetch address with
  | .ok byte => byte
  | .error _ => 0

/-- The address at an offset, unless it takes more than sixteen bits. -/
def offsetBy? (address offset : UInt16) : Option UInt16 :=
  if address.toNat + offset.toNat < 65536 then some (address + offset) else none

structure Snapshot where
  counter : UInt16
  bytes : Vector UInt8 3
  registers : Registers
  deriving DecidableEq

namespace Snapshot

/-- The address of each byte is computed before it is asked whether there is a cell. -/
def capture (memory : Memory) (registers : Registers) (counter : UInt16) : Option Snapshot := do
  let first ← offsetBy? counter 0
  let second ← offsetBy? counter 1
  let third ← offsetBy? counter 2
  return ⟨counter, #v[memory.peek first, memory.peek second, memory.peek third], registers⟩

def text (snapshot : Snapshot) : String :=
  let bytes := snapshot.bytes.toList.map fun byte => Numeral.dump.write byte.toNat
  "TRACE: " ++ Numeral.dump.write snapshot.counter.toNat ++ " | " ++
    " ".intercalate bytes ++ " | " ++ snapshot.registers.display

end Snapshot

def Machine.snapshot (machine : Machine) : Option Snapshot :=
  Snapshot.capture machine.memory machine.registers machine.counter

end LS8
