import LS8.Proofs.Machine.Loading
import LS8.Proofs.Machine.Refusal
import LS8.Proofs.Machine.Running
import LS8.Proofs.Machine.Stepping

/-! What a run writes. The only instructions that write memory are those that push a byte, and
they write the cell below the stack pointer. So a cell is changed only from the address above
it, the last cell is never changed, and a program stays as it was loaded for as long as the
stack keeps away from it. -/
namespace LS8

/-- A stack pointer with room below it stands one above the cell it is lowered to. -/
theorem toNat_eq_lowered {pointer : UInt8} (room : pointer ≠ 0) :
    pointer.toNat = (pointer - 1).toNat + 1 := by
  have positive : pointer.toNat ≠ 0 := fun zero => room (UInt8.toNat_inj.mp zero)
  have bound : (1 : UInt8) ≤ pointer := UInt8.le_iff_toNat_le.mpr (Nat.pos_of_ne_zero positive)
  rw [UInt8.toNat_sub_of_le _ _ bound]
  change pointer.toNat = pointer.toNat - 1 + 1
  omega

namespace Instruction

/-- The cell that an instruction writes if it is not refused. -/
def written? (machine : Machine) : Instruction → Option UInt8
  | push _ | call _ => some (machine.stackPointer - 1)
  | hlt | ldi _ _ | prn _ | mul _ _ | add _ _ | pop _ | ret | cmp _ _ | jmp _ | jeq _ | jne _ => none

theorem read_next {machine : Machine} {instruction : Instruction} {cell : UInt8}
    (unwritten : instruction.written? machine ≠ some cell) :
    (instruction.next machine).memory.read cell = machine.memory.read cell := by
  cases instruction
  case push a | call a =>
    have apart : cell ≠ machine.stackPointer - 1 := by
      intro same
      exact unwritten (congrArg some same.symm)
    simp only [next, effect, Machine.store, Machine.stackPointer_set]
    exact Memory.read_write_other _ _ apart
  all_goals rfl

/-- An instruction that writes and is not refused has room below the stack pointer. -/
theorem written?_eq_some {machine : Machine} {instruction : Instruction} {cell : UInt8}
    (accepted : instruction.refusal? machine = none)
    (writes : instruction.written? machine = some cell) :
    (instruction.opcode = .push ∨ instruction.opcode = .call) ∧
      machine.stackPointer.toNat = cell.toNat + 1 := by
  cases instruction
  case push a =>
    obtain rfl := Option.some.inj writes
    obtain ⟨-, room⟩ := refusal?_push_eq_none_iff.mp accepted
    exact ⟨.inl rfl, toNat_eq_lowered room⟩
  case call a =>
    obtain rfl := Option.some.inj writes
    obtain ⟨-, -, room⟩ := refusal?_call_eq_none_iff.mp accepted
    exact ⟨.inr rfl, toNat_eq_lowered room⟩
  all_goals cases writes

end Instruction

namespace Machine

/-- The next step succeeds in pushing a byte onto a cell. -/
structure PushesOnto (machine : Machine) (cell : UInt8) : Prop where
  succeeds : machine.step.result = .ok .push ∨ machine.step.result = .ok .call
  above : machine.stackPointer.toNat = cell.toNat + 1

/-- An instruction that is not refused pushes onto the cell it writes. -/
theorem pushesOnto_iff {machine : Machine} {instruction : Instruction} {cell : UInt8}
    (running : machine.halted = false) (fetched : machine.fetch = .ok instruction)
    (accepted : instruction.refusal? machine = none) :
    machine.PushesOnto cell ↔ instruction.written? machine = some cell := by
  have result : machine.step.result = .ok instruction.opcode := by
    rw [step_executed running fetched accepted]
  constructor
  · rintro ⟨succeeds, above⟩
    have room : machine.stackPointer ≠ 0 := by
      intro zero
      rw [zero] at above
      exact Nat.noConfusion above
    have lowered : machine.stackPointer - 1 = cell := by
      have raised := toNat_eq_lowered room
      exact UInt8.toNat_inj.mp (by omega)
    rw [result] at succeeds
    cases instruction
    case push a | call a => exact congrArg some lowered
    all_goals rcases succeeds with opcode | opcode <;> cases opcode
  · intro writes
    obtain ⟨pushing, above⟩ := Instruction.written?_eq_some accepted writes
    refine ⟨?_, above⟩
    rw [result]
    rcases pushing with opcode | opcode
    · exact .inl (congrArg Except.ok opcode)
    · exact .inr (congrArg Except.ok opcode)

theorem not_pushesOnto_of_error {machine : Machine} {fault : Fault} {cell : UInt8}
    (faulted : machine.step.result = .error fault) : ¬machine.PushesOnto cell := by
  rintro ⟨succeeds | succeeds, -⟩
  · rw [faulted] at succeeds
    contradiction
  · rw [faulted] at succeeds
    contradiction

theorem step_changes {machine : Machine} {cell : UInt8}
    (changed : machine.step.machine.memory.read cell ≠ machine.memory.read cell) :
    machine.PushesOnto cell := by
  rcases machine.step_machine_cases with ⟨halted, same⟩ |
    ⟨instruction, fetched, accepted, succeeded, next⟩
  · rw [same] at changed
    exact absurd rfl changed
  · rw [next] at changed
    apply (pushesOnto_iff (step_eq_ok succeeded).1 fetched accepted).mpr
    exact Decidable.not_not.mp fun unwritten => changed (Instruction.read_next unwritten)

/-- A cell onto which no step of a run pushes keeps its value through the run. -/
theorem read_after {limit : Nat} {machine : Machine} {cell : UInt8}
    (apart : ∀ before ∈ stepped limit machine, ¬before.PushesOnto cell) :
    (after limit machine).memory.read cell = machine.memory.read cell := by
  apply after_frame fun machine => machine.memory.read cell
  intro before member
  exact Decidable.not_not.mp fun changed => apart before member (step_changes changed)

theorem prefix_after {limit : Nat} {machine : Machine} {program : List UInt8}
    (begun : program <+: machine.memory.toList)
    (apart : ∀ before ∈ stepped limit machine,
      ¬(1 ≤ before.stackPointer.toNat ∧ before.stackPointer.toNat ≤ program.length)) :
    program <+: (after limit machine).memory.toList := by
  obtain ⟨fits, same⟩ := Memory.prefix_toList_iff.mp begun
  refine Memory.prefix_toList_iff.mpr ⟨fits, ?_⟩
  intro address inside
  rw [← same address inside]
  apply read_after
  intro before member pushes
  have above := pushes.above
  exact apart before member ⟨by omega, by omega⟩

/-- Runs write nothing but the stack. -/
theorem only_pushes_change_memory (machine : Machine) (limit : Nat) :
    (∀ before ∈ stepped limit machine, ∀ cell,
      before.step.machine.memory.read cell ≠ before.memory.read cell → before.PushesOnto cell) ∧
    (∀ cell, (after limit machine).memory.read cell ≠ machine.memory.read cell →
      ∃ before ∈ stepped limit machine, before.PushesOnto cell) ∧
    (∀ before ∈ stepped limit machine, ∀ first second,
      before.step.machine.memory.read first ≠ before.memory.read first →
      before.step.machine.memory.read second ≠ before.memory.read second → first = second) ∧
    (after limit machine).memory.read 0xff = machine.memory.read 0xff ∧
    (∀ address, (∀ before ∈ stepped limit machine, before.stackPointer ≤ address) →
      ∀ cell, address ≤ cell →
        (after limit machine).memory.read cell = machine.memory.read cell) ∧
    (∀ program, program <+: machine.memory.toList →
      (∀ before ∈ stepped limit machine,
        ¬(1 ≤ before.stackPointer.toNat ∧ before.stackPointer.toNat ≤ program.length)) →
      ∀ index ≤ limit, program <+: (after index machine).memory.toList) ∧
    (∀ program, (machine.load program).result = .ok () →
      program <+: (machine.load program).machine.memory.toList) := by
  refine ⟨?_, ?_, ?_, ?_, ?_, ?_, ?_⟩
  · intro before _ cell changed
    exact step_changes changed
  · intro cell changed
    by_cases pushed : ∃ before ∈ stepped limit machine, before.PushesOnto cell
    · exact pushed
    · exact absurd (read_after fun before member pushes => pushed ⟨before, member, pushes⟩) changed
  · intro before _ first second firstChanged secondChanged
    have onFirst := (step_changes firstChanged).above
    have onSecond := (step_changes secondChanged).above
    exact UInt8.toNat_inj.mp (by omega)
  · apply read_after
    intro before _ pushes
    -- the pointer above the last cell would be no byte
    have above : before.stackPointer.toNat = 255 + 1 := pushes.above
    have bound := before.stackPointer.toNat_lt
    omega
  · intro address low cell high
    apply read_after
    intro before member pushes
    have above := pushes.above
    have pointer := UInt8.le_iff_toNat_le.mp (low before member)
    have target := UInt8.le_iff_toNat_le.mp high
    omega
  · intro program begun apart index within
    exact prefix_after begun fun before member => apart before (stepped_mono within member)
  · intro program accepted
    exact load_eq_ok accepted

/-- A machine about to push R7 and halt. -/
def stacking : Machine := ((fresh.store 0 0x45).store 1 0x07).store 2 0x01

theorem only_pushes_change_memory_stacking :
    (after 2 stacking).halted = true ∧
    (∃ before ∈ stepped 2 stacking, before.PushesOnto 0xf3) ∧
    (∀ cell, 0xf4 ≤ cell → (after 2 stacking).memory.read cell = stacking.memory.read cell) ∧
    (∀ index ≤ 2, [0x45, 0x07, 0x01] <+: (after index stacking).memory.toList) ∧
    [0x45, 0x07, 0x01] <+: (stacking.load [0x45, 0x07, 0x01]).machine.memory.toList := by
  obtain ⟨-, changed, -, -, above, intact, loaded⟩ := only_pushes_change_memory stacking 2
  have written : (after 2 stacking).memory.read 0xf3 ≠ stacking.memory.read 0xf3 := by
    decide +kernel
  have begun : [0x45, 0x07, 0x01] <+: stacking.memory.toList := by decide +kernel
  exact ⟨by decide +kernel, changed 0xf3 written, above 0xf4 (by decide +kernel),
    intact _ begun (by decide +kernel), loaded _ rfl⟩

end Machine
end LS8
