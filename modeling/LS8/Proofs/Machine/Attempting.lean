import LS8.Proofs.Instruction.Sweep
import LS8.Proofs.Machine.Loading
import LS8.Proofs.Machine.Refusal
import LS8.Proofs.Machine.Stepping

/-! Steps at an instruction of a program. Where memory holds a program and the program counter
stands in front of an instruction, the step attempts that instruction. If its registers exist,
then all that can go wrong is that there is no room for a return address or on the stack. -/
namespace LS8

namespace Instruction

/-- Whether an instruction goes on elsewhere than behind itself. -/
def transfers (machine : Machine) : Instruction → Bool
  | call _ | ret | jmp _ => true
  | jeq _ => machine.flags.bits &&& 1 != 0
  | jne _ => machine.flags.bits &&& 1 == 0
  | hlt | ldi _ _ | prn _ | mul _ _ | add _ _ | push _ | pop _ | cmp _ _ => false

theorem target_of_stays {machine : Machine} {instruction : Instruction}
    (stays : instruction.transfers machine = false) :
    instruction.target machine = machine.following instruction := by
  cases instruction
  case call a | ret | jmp a => cases stays
  case jeq a =>
    have unequal : machine.flags.isEqual = false := stays
    simp [target, unequal]
  case jne a =>
    have equal : machine.flags.isEqual = true := by
      simpa [transfers, Flags.isEqual, Flags.equalBit] using stays
    simp [target, equal]
  all_goals rfl

/-- Every operand that is to be a register is one. -/
def Registered (instruction : Instruction) : Prop := ∀ index ∈ instruction.registers, index < 8

theorem refusal?_registered {machine : Machine} {instruction : Instruction} {cause : AddressFault}
    (registered : instruction.Registered) (refused : instruction.refusal? machine = some cause) :
    cause = .stackOverflow ∨ cause = .stackUnderflow ∨
      (instruction.opcode = .call ∧ machine.counter + 2 = 256 ∧ cause = .pastMemory 256) := by
  rcases refusal?_eq_some refused with ⟨index, member, above, -⟩ | causes
  · have low := UInt8.lt_iff_toNat_lt.mp (registered index member)
    have high := UInt8.lt_iff_toNat_lt.mp above
    change index.toNat < 8 at low
    change 7 < index.toNat at high
    omega
  · exact causes

end Instruction

namespace Machine

/-- The bytes of an instruction are read from where they stand in a program. -/
theorem read_of_prefix {memory : Memory} {front back : List UInt8} {instruction : Instruction}
    (begun : front ++ (instruction.encode ++ back) <+: memory.toList) {offset : Nat}
    (inside : offset < instruction.encode.length) {address : UInt8}
    (standing : address.toNat = front.length + offset) :
    memory.read address = instruction.encode.getD offset 0 := by
  obtain ⟨-, same⟩ := Memory.prefix_toList_iff.mp begun
  have within : address.toNat < (front ++ (instruction.encode ++ back)).length := by
    simp only [List.length_append]
    omega
  rw [same address within]
  simp only [standing]
  rw [List.getElem_append_right (Nat.le_add_right _ _), List.getElem_append_left (by omega)]
  simp [inside]

theorem fetch_of_prefix {machine : Machine} {front back : List UInt8} {instruction : Instruction}
    (begun : front ++ (instruction.encode ++ back) <+: machine.memory.toList)
    (standing : machine.counter.toNat = front.length) : machine.fetch = .ok instruction := by
  have length := begun.length_le
  have width := instruction.length_encode
  simp only [List.length_append, Memory.length_toList, width, Opcode.width] at length
  have byte (offset : UInt16) (taken : offset.toNat ≤ instruction.opcode.operandCount) :
      machine.memory.read (machine.counter + offset).toUInt8 =
        instruction.encode.getD offset.toNat 0 := by
    apply read_of_prefix begun
    · rw [width, Opcode.width]
      omega
    · rw [UInt16.toNat_toUInt8, UInt16.toNat_add]
      omega
  have same : instruction = machine.instruction instruction.opcode :=
    instruction.ofOperands_operandAt.symm.trans
      (Instruction.ofOperands_congr (fun taken => (byte 1 taken).symm)
        fun taken => (byte 2 taken).symm)
  refine fetch_eq_ok_iff.mpr ⟨by omega, ?_, same⟩
  have first := byte 0 (Nat.zero_le _)
  rw [UInt16.add_zero] at first
  exact first

/-- A step at an instruction of a program, the address behind which is given. -/
structure StepsAt (machine : Machine) (instruction : Instruction) (next : Nat) : Prop where
  fetched : machine.fetch = .ok instruction
  noticed : ∃ later, machine.step.events = .fetched machine.counter instruction :: later
  executed : ∀ opcode, machine.step.result = .ok opcode → opcode = instruction.opcode
  refused : ∀ fault, machine.step.result = .error fault →
    fault = .addressing .stackOverflow ∨ fault = .addressing .stackUnderflow ∨
      (instruction.opcode = .call ∧ machine.counter + 2 = 256 ∧
        fault = .addressing (.pastMemory 256))
  advanced : ∀ opcode, machine.step.result = .ok opcode →
    instruction.transfers machine = false → machine.step.machine.counter.toNat = next

theorem stepsAt_of_prefix {machine : Machine} {front back : List UInt8}
    {instruction : Instruction} (registered : instruction.Registered)
    (running : machine.halted = false)
    (begun : front ++ (instruction.encode ++ back) <+: machine.memory.toList)
    (standing : machine.counter.toNat = front.length) :
    machine.StepsAt instruction (front.length + instruction.encode.length) := by
  have fetched := fetch_of_prefix begun standing
  cases refusal : instruction.refusal? machine with
  | some cause =>
    have refused := step_refused running fetched refusal
    have causes := Instruction.refusal?_registered registered refusal
    refine ⟨fetched, ?_, ?_, ?_, ?_⟩
    · rw [refused]
      exact ⟨_, rfl⟩
    · intro opcode succeeded
      rw [refused] at succeeded
      contradiction
    · intro fault faulted
      rw [refused] at faulted
      obtain rfl := Except.error.inj faulted
      simpa using causes
    · intro opcode succeeded
      rw [refused] at succeeded
      contradiction
  | none =>
    have executed := step_executed running fetched refusal
    refine ⟨fetched, ?_, ?_, ?_, ?_⟩
    · rw [executed]
      exact ⟨_, rfl⟩
    · intro opcode succeeded
      rw [executed] at succeeded
      exact (Except.ok.inj succeeded).symm
    · intro fault faulted
      rw [executed] at faulted
      contradiction
    · intro opcode _ stays
      rw [executed, Instruction.next, Instruction.target_of_stays stays, toNat_following fetched,
        instruction.length_encode, standing]

end Machine
end LS8
