import LS8.Machine.Snapshot
import LS8.Proofs.Machine.Faults
import LS8.Proofs.Machine.Loading
import LS8.Proofs.Machine.Refusal
import LS8.Proofs.Machine.Running

/-! How far the program counter gets. An instruction that is fetched ends at most one past the
last cell, and every address jumped to is a byte; so the program counter is never above 256,
sums with it are exact in sixteen bits, and 256 is the only address past memory asked for. -/
namespace LS8

namespace Instruction

theorem toNat_target_le {machine : Machine} {instruction : Instruction}
    (fetched : machine.fetch = .ok instruction) : (instruction.target machine).toNat ≤ 256 := by
  have following : (machine.following instruction).toNat ≤ 256 := by
    obtain ⟨inside, -, -⟩ := Machine.fetch_eq_ok_iff.mp fetched
    rw [Machine.toNat_following fetched, Opcode.width]
    omega
  have byte (value : UInt8) : value.toUInt16.toNat ≤ 256 := Nat.le_of_lt value.toNat_lt
  cases instruction
  case call a | jmp a => exact byte _
  case ret => exact byte _
  case jeq a | jne a =>
    simp only [target]
    split
    · first | exact byte _ | exact following
    · first | exact byte _ | exact following
  all_goals exact following

end Instruction

/-- Peeking is reading the list of cells, which is endless zeros past memory. -/
theorem Memory.peek_eq (memory : Memory) (address : UInt16) :
    memory.peek address = memory.toList.getD address.toNat 0 := by
  rw [List.getD_eq_getElem?_getD, peek]
  by_cases inside : address.toNat < 256
  · have value : address.toUInt8.toNat = address.toNat := Nat.mod_eq_of_lt inside
    rw [fetch_of_lt memory inside, ← value, getElem?_toList]
    rfl
  · have outside := Nat.le_of_not_lt inside
    rw [fetch_of_le memory outside, List.getElem?_eq_none (by rwa [length_toList])]
    rfl

namespace Snapshot

variable (memory : Memory) (registers : Registers) {counter : UInt16}

/-- No address of a byte overflows if that of the last one does not. -/
theorem capture_of_lt (low : counter.toNat + 2 < 65536) : capture memory registers counter =
    some ⟨counter, #v[memory.peek counter, memory.peek (counter + 1), memory.peek (counter + 2)],
      registers⟩ := by
  have taken (offset : UInt16) (near : offset.toNat ≤ 2) :
      offsetBy? counter offset = some (counter + offset) := if_pos (by omega)
  rw [capture, taken 0 (by decide), taken 1 (by decide), taken 2 (by decide), UInt16.add_zero]
  rfl

theorem capture_of_le (high : 65536 ≤ counter.toNat + 2) :
    capture memory registers counter = none := by
  have last : offsetBy? counter 2 = none := if_neg (Nat.not_lt.mpr high)
  rw [capture, last]
  cases offsetBy? counter 0 <;> cases offsetBy? counter 1 <;> rfl

/-- The bytes of a snapshot are those from the program counter on, and zeros past memory. -/
theorem exists_capture (low : counter.toNat + 2 < 65536) :
    ∃ snapshot, capture memory registers counter = some snapshot ∧
      snapshot.counter = counter ∧ snapshot.registers = registers ∧
      ∀ index : Fin 3, snapshot.bytes.get index =
        memory.toList.getD (counter.toNat + index) 0 := by
  refine ⟨_, capture_of_lt memory registers low, rfl, rfl, ?_⟩
  have address (offset : UInt16) (near : offset.toNat ≤ 2) : memory.peek (counter + offset) =
      memory.toList.getD (counter.toNat + offset.toNat) 0 := by
    rw [memory.peek_eq, UInt16.toNat_add, Nat.mod_eq_of_lt (by omega)]
  rintro ⟨index, inside⟩
  rcases index with _ | _ | _ | more
  · exact memory.peek_eq counter
  · exact address 1 (by decide)
  · exact address 2 (by decide)
  · omega

end Snapshot

namespace Machine

/-- A machine whose program counter is in memory or right behind it. No sum with the program
counter, be it for an operand, for the next instruction or for a snapshot, leaves sixteen bits. -/
structure Bounded (machine : Machine) : Prop where
  counter : machine.counter.toNat ≤ 256
  operand : ∀ offset : UInt16, offset.toNat ≤ 2 →
    (machine.counter + offset).toNat = machine.counter.toNat + offset.toNat
  following : ∀ instruction : Instruction, (machine.following instruction).toNat =
    machine.counter.toNat + instruction.opcode.width
  shown : ∃ snapshot, machine.snapshot = some snapshot ∧ ∀ index : Fin 3, snapshot.bytes[index] =
    machine.memory.toList.getD (machine.counter.toNat + index) 0

theorem toNat_counter_add {machine : Machine} (inside : machine.counter.toNat ≤ 256)
    {offset : UInt16} (small : offset.toNat ≤ 3) :
    (machine.counter + offset).toNat = machine.counter.toNat + offset.toNat := by
  rw [UInt16.toNat_add]
  omega

theorem bounded_of_counter_le {machine : Machine} (inside : machine.counter.toNat ≤ 256) :
    machine.Bounded where
  counter := inside
  operand := fun offset small => toNat_counter_add inside (Nat.le_succ_of_le small)
  following := by
    intro instruction
    have few := instruction.opcode.operandCount_le_two
    have width : (UInt16.ofNat instruction.opcode.width).toNat = instruction.opcode.width := by
      rw [UInt16.toNat_ofNat', Opcode.width]
      omega
    rw [Machine.following, toNat_counter_add inside (by rw [width, Opcode.width]; omega), width]
  shown := by
    have low : machine.counter.toNat + 2 < 65536 := by omega
    obtain ⟨snapshot, taken, -, -, bytes⟩ :=
      Snapshot.exists_capture machine.memory machine.registers low
    exact ⟨snapshot, taken, bytes⟩

theorem counter_step_le {machine : Machine} (inside : machine.counter.toNat ≤ 256) :
    machine.step.machine.counter.toNat ≤ 256 := by
  rcases machine.step_machine_cases with ⟨halted, same⟩ | ⟨instruction, fetched, -, -, next⟩
  · rw [same]
    exact inside
  · rw [next]
    exact Instruction.toNat_target_le fetched

theorem counter_after_le {machine : Machine} (inside : machine.counter.toNat ≤ 256) (limit : Nat) :
    (after limit machine).counter.toNat ≤ 256 :=
  after_preserves (motive := fun machine => machine.counter.toNat ≤ 256)
    (fun _ _ inside => counter_step_le inside) limit inside

/-- The last attempt of a run is made by a machine that is running and within bounds. -/
theorem inside_of_getLast? {limit : Nat} {machine last : Machine}
    (found : (stepped limit machine).getLast? = some last) (inside : machine.counter.toNat ≤ 256) :
    last.halted = false ∧ last.counter.toNat ≤ 256 := by
  obtain ⟨index, -, rfl, running⟩ := mem_stepped_iff.mp (List.mem_of_getLast? found)
  exact ⟨running, counter_after_le inside index⟩

/-- The byte at the program counter tells the faults of a step apart. Only right behind memory is
there none. -/
theorem fault_cases {machine : Machine} {fault : Fault} (running : machine.halted = false)
    (inside : machine.counter.toNat ≤ 256) (faulted : machine.step.result = .error fault) :
    (machine.counter = 256 ∧ fault = .addressing (.pastMemory 256)) ∨
    ∃ byte, machine.memory.fetch machine.counter = .ok byte ∧
      ((Opcode.ofByte? byte = none ∧ fault = .illegalInstruction byte machine.counter) ∨
        (Opcode.ofByte? byte ≠ none ∧ ∃ cause, fault = .addressing cause)) := by
  have cause := (error_result_iff running _).mp faulted
  unfold fault? at cause
  dsimp only at cause
  split at cause
  · rename_i outside
    have past : machine.counter = 256 := UInt16.toNat_inj.mp (Nat.le_antisymm inside outside)
    rw [past] at cause
    exact .inl ⟨past, (Option.some.inj cause).symm⟩
  rename_i within
  refine .inr ⟨_, machine.memory.fetch_of_lt (Nat.lt_of_not_le within), ?_⟩
  split at cause
  · rename_i none
    exact .inl ⟨none, (Option.some.inj cause).symm⟩
  · rename_i opcode decoded
    refine .inr ⟨by rw [decoded]; exact Option.some_ne_none opcode, ?_⟩
    split at cause
    · exact ⟨_, (Option.some.inj cause).symm⟩
    · obtain ⟨reason, -, same⟩ := Option.map_eq_some_iff.mp cause
      exact ⟨reason, same.symm⟩

theorem address_of_pastMemory {machine : Machine} (inside : machine.counter.toNat ≤ 256)
    {address : UInt16}
    (faulted : machine.step.result = .error (.addressing (.pastMemory address))) :
    address = 256 := by
  by_cases halted : machine.halted = true
  · rw [step_halted halted] at faulted
    cases faulted
  have cause := (error_result_iff (Bool.eq_false_iff.mpr halted) _).mp faulted
  unfold fault? at cause
  dsimp only at cause
  split at cause
  · rename_i outside
    cases cause
    exact UInt16.toNat_inj.mp (Nat.le_antisymm inside outside)
  split at cause
  · cases cause
  split at cause
  · cases cause
    rfl
  · obtain ⟨reason, refused, same⟩ := Option.map_eq_some_iff.mp cause
    cases same
    rcases Instruction.refusal?_eq_some refused with ⟨index, -, -, register⟩ | overflow |
      underflow | ⟨-, -, past⟩
    · cases register
    · cases overflow
    · cases underflow
    · cases past
      rfl

end Machine
end LS8
