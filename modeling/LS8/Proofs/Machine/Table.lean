import LS8.Machine.Step

/-! The instruction table: what each operation looks at before it does anything, what it then
does to the machine, where it goes on, and what it prints. The table has one row for each
mnemonic and knows nothing of the bits of an opcode or of the order in which a step
changes things; that steps follow it is proved elsewhere. -/
namespace LS8

/-- The register a byte names. A byte above seven names none; every row of the table refuses
such a byte first, so that what stands for it here is never used. -/
def Register.named (index : UInt8) : Register := ⟨index.toNat % 8, Nat.mod_lt _ (by decide)⟩

namespace Instruction

/-- Why an instruction at the program counter is refused, by the first case that applies. -/
def refusal? (machine : Machine) : Instruction → Option AddressFault
  | hlt => none
  | ldi a _ | prn a | jmp a | jeq a | jne a =>
    if 7 < a then some (.register a)
    else none
  | mul a b | add a b | cmp a b =>
    if 7 < b then some (.register b)
    else if 7 < a then some (.register a)
    else none
  | push a =>
    if 7 < a then some (.register a)
    else if machine.stackPointer = 0 then some .stackOverflow
    else none
  | pop a =>
    if machine.stackPointer = 255 then some .stackUnderflow
    else if 7 < a then some (.register a)
    else if a = 7 ∧ machine.top = 255 then some .stackUnderflow
    else none
  | call a =>
    if 7 < a then some (.register a)
    else if machine.counter + 2 = 256 then some (.pastMemory 256)
    else if machine.stackPointer = 0 then some .stackOverflow
    else none
  | ret =>
    if machine.stackPointer = 255 then some .stackUnderflow
    else none

/-- What an instruction does to the machine, its program counter apart. -/
def effect (machine : Machine) : Instruction → Machine
  | hlt => { machine with halted := true }
  | ldi a value => machine.set (.named a) value
  | mul a b => machine.set (.named a) (machine.get (.named a) * machine.get (.named b))
  | add a b => machine.set (.named a) (machine.get (.named a) + machine.get (.named b))
  | cmp a b =>
    let first := machine.get (.named a)
    let second := machine.get (.named b)
    { machine with flags := ⟨if first = second then 1 else if first > second then 2 else 4⟩ }
  | push a =>
    let moved := machine.set .stackPointer (machine.stackPointer - 1)
    moved.store moved.stackPointer (moved.get (.named a))
  | pop a =>
    let written := machine.set (.named a) machine.top
    written.set .stackPointer (written.stackPointer + 1)
  | call _ =>
    let moved := machine.set .stackPointer (machine.stackPointer - 1)
    moved.store moved.stackPointer (machine.counter + 2).toUInt8
  | ret => machine.set .stackPointer (machine.stackPointer + 1)
  | prn _ | jmp _ | jeq _ | jne _ => machine

/-- Where an instruction goes on. The register of a jump is read before anything is done, so
that a call through R7 goes to the address the stack pointer had. -/
def target (machine : Machine) (instruction : Instruction) : UInt16 :=
  match instruction with
  | call a | jmp a => (machine.get (.named a)).toUInt16
  | ret => machine.top.toUInt16
  | jeq a =>
    if machine.flags.isEqual then (machine.get (.named a)).toUInt16
    else machine.following instruction
  | jne a =>
    if machine.flags.isEqual then machine.following instruction
    else (machine.get (.named a)).toUInt16
  | hlt | ldi _ _ | prn _ | mul _ _ | add _ _ | cmp _ _ | push _ | pop _ =>
    machine.following instruction

def printed (machine : Machine) : Instruction → List UInt8
  | prn a => [machine.get (.named a)]
  | _ => []

/-- The whole machine after an instruction that is not refused. -/
def next (machine : Machine) (instruction : Instruction) : Machine :=
  { instruction.effect machine with counter := instruction.target machine }

end Instruction

namespace Machine

/-- The instruction that an opcode makes of the bytes after the program counter. -/
def instruction (machine : Machine) (opcode : Opcode) : Instruction :=
  .ofOperands opcode (machine.memory.read (machine.counter + 1).toUInt8)
    (machine.memory.read (machine.counter + 2).toUInt8)

/-- The fault of a step, by the first case that applies: no byte at the program counter, no
opcode in it, no memory for an operand that the opcode takes, or a refusal. -/
def fault? (machine : Machine) : Option Fault :=
  let byte := machine.memory.read machine.counter.toUInt8
  if 256 ≤ machine.counter.toNat then some (.addressing (.pastMemory machine.counter))
  else match Opcode.ofByte? byte with
    | none => some (.illegalInstruction byte machine.counter)
    | some opcode =>
      if 256 ≤ machine.counter.toNat + opcode.operandCount then
        some (.addressing (.pastMemory 256))
      else ((machine.instruction opcode).refusal? machine).map .addressing

end Machine

theorem Register.toNat_lt_iff (index : UInt8) : index.toNat < 8 ↔ ¬7 < index := by
  rw [UInt8.lt_iff_toNat_lt]
  change index.toNat < 8 ↔ ¬7 < index.toNat
  omega

/-- A byte is accepted as a register up to seven. -/
theorem Register.ofByte_eq (index : UInt8) : Register.ofByte index =
    if 7 < index then .error (.register index) else .ok (.named index) := by
  unfold ofByte
  split
  · rename_i low
    have same : (⟨index.toNat, low⟩ : Register) = named index :=
      Fin.ext (Nat.mod_eq_of_lt low).symm
    rw [if_neg ((toNat_lt_iff index).mp low), same]
  · rename_i high
    rw [if_pos (Decidable.not_not.mp (mt (toNat_lt_iff index).mpr high))]

/-- The register that an accepted byte names is the one of that index. -/
theorem Register.val_named {index : UInt8} (accepted : ¬7 < index) :
    (Register.named index).val = index.toNat :=
  Nat.mod_eq_of_lt ((toNat_lt_iff index).mpr accepted)

/-- Seven is the only byte that names the stack pointer. -/
theorem Register.named_eq_stackPointer_iff {index : UInt8} (accepted : ¬7 < index) :
    Register.named index = .stackPointer ↔ index = 7 := by
  rw [Fin.ext_iff, val_named accepted, ← UInt8.toNat_inj]
  rfl

theorem Flags.ofComparison_eq (first second : UInt8) : ofComparison first second =
    ⟨if first = second then 1 else if first > second then 2 else 4⟩ := by
  unfold ofComparison
  split
  · rfl
  · split <;> rfl

/-- Writing a register moves the stack pointer only if the register is R7. -/
theorem Machine.stackPointer_set_named (machine : Machine) {index : UInt8}
    (accepted : ¬7 < index) (value : UInt8) :
    (machine.set (.named index) value).stackPointer =
      if index = 7 then value else machine.stackPointer := by
  split
  · rename_i seven
    rw [(Register.named_eq_stackPointer_iff accepted).mpr seven, stackPointer_set]
  · rename_i other
    have apart := mt (Register.named_eq_stackPointer_iff accepted).mp other
    exact get_set_other machine value (Ne.symm apart)

end LS8
