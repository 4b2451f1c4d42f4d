import LS8.Proofs.Machine.Table

/-! Refusals read backwards. What refused an instruction tells which of its operands, or which
end of memory or of the stack, is to blame; and an instruction that is not refused has the
registers and the room that it needs. -/
namespace LS8.Instruction

variable {machine : Machine} {instruction : Instruction}

/-- The operands that are to be registers. -/
def registers : Instruction → List UInt8
  | hlt | ret => []
  | ldi a _ | prn a | push a | pop a | call a | jmp a | jeq a | jne a => [a]
  | mul a b | add a b | cmp a b => [a, b]

/-- Only a return address can be past memory, and then it is the first address there. -/
theorem refusal?_eq_some {cause : AddressFault}
    (refused : instruction.refusal? machine = some cause) :
    (∃ index ∈ instruction.registers, 7 < index ∧ cause = .register index) ∨
      cause = .stackOverflow ∨ cause = .stackUnderflow ∨
      (instruction.opcode = .call ∧ machine.counter + 2 = 256 ∧ cause = .pastMemory 256) := by
  cases instruction
  case hlt => cases refused
  case ldi a value | prn a | jmp a | jeq a | jne a =>
    simp only [refusal?] at refused
    split at refused <;> cases refused
    exact .inl ⟨a, List.mem_cons_self, ‹_›, rfl⟩
  case mul a b | add a b | cmp a b =>
    simp only [refusal?] at refused
    split at refused
    · cases refused
      exact .inl ⟨b, List.mem_cons_of_mem a List.mem_cons_self, ‹_›, rfl⟩
    split at refused <;> cases refused
    exact .inl ⟨a, List.mem_cons_self, ‹_›, rfl⟩
  case push a =>
    simp only [refusal?] at refused
    split at refused
    · cases refused
      exact .inl ⟨a, List.mem_cons_self, ‹_›, rfl⟩
    split at refused <;> cases refused
    exact .inr (.inl rfl)
  case pop a =>
    simp only [refusal?] at refused
    split at refused
    · cases refused
      exact .inr (.inr (.inl rfl))
    split at refused
    · cases refused
      exact .inl ⟨a, List.mem_cons_self, ‹_›, rfl⟩
    split at refused <;> cases refused
    exact .inr (.inr (.inl rfl))
  case call a =>
    simp only [refusal?] at refused
    split at refused
    · cases refused
      exact .inl ⟨a, List.mem_cons_self, ‹_›, rfl⟩
    split at refused
    · rename_i past
      cases refused
      exact .inr (.inr (.inr ⟨rfl, past, rfl⟩))
    split at refused <;> cases refused
    exact .inr (.inl rfl)
  case ret =>
    simp only [refusal?] at refused
    split at refused <;> cases refused
    exact .inr (.inr (.inl rfl))

/-- The register operands of an instruction that is not refused name registers. -/
theorem registers_accepted (accepted : instruction.refusal? machine = none) :
    ∀ index ∈ instruction.registers, ¬7 < index := by
  cases instruction <;> grind [refusal?, registers]

theorem refusal?_push_eq_none_iff {index : UInt8} :
    (push index).refusal? machine = none ↔ ¬7 < index ∧ machine.stackPointer ≠ 0 := by
  by_cases above : 7 < index <;> simp [refusal?, above]

theorem refusal?_pop_eq_none_iff {index : UInt8} :
    (pop index).refusal? machine = none ↔
      machine.stackPointer ≠ 255 ∧ ¬7 < index ∧ ¬(index = 7 ∧ machine.top = 255) := by
  by_cases empty : machine.stackPointer = 255
  · simp [refusal?, empty]
  · by_cases above : 7 < index <;> simp [refusal?, empty, above]

theorem refusal?_call_eq_none_iff {index : UInt8} :
    (call index).refusal? machine = none ↔
      ¬7 < index ∧ machine.counter + 2 ≠ 256 ∧ machine.stackPointer ≠ 0 := by
  by_cases above : 7 < index
  · simp [refusal?, above]
  · by_cases past : machine.counter + 2 = 256 <;> simp [refusal?, above, past]

theorem refusal?_ret_eq_none_iff :
    ret.refusal? machine = none ↔ machine.stackPointer ≠ 255 := by
  simp [refusal?]

end LS8.Instruction
