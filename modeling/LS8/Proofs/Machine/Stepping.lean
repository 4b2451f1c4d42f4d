import LS8.Proofs.Machine.Execution

/-! The three ways a step can go: no instruction could be fetched, the instruction was refused,
or it was executed. Each is one equation for the whole attempt, so that what is proved of
steps is read off the fetched bytes and the instruction table. -/
namespace LS8

namespace Memory

theorem fetch_of_lt (memory : Memory) {address : UInt16} (inside : address.toNat < 256) :
    memory.fetch address = .ok (memory.read address.toUInt8) := by
  simp [fetch, inside, read, Nat.mod_eq_of_lt inside]

theorem fetch_of_le (memory : Memory) {address : UInt16} (outside : 256 ≤ address.toNat) :
    memory.fetch address = .error (.pastMemory address) := by
  simp [fetch, Nat.not_lt.mpr outside]

end Memory

namespace Machine

theorem fetchOperand_untaken (machine : Machine) {opcode : Opcode} (offset : UInt16)
    (untaken : opcode.operandCount < offset.toNat) : machine.fetchOperand opcode offset = .ok 0 :=
  if_neg (Nat.not_le.mpr untaken)

/-- The first address past memory is the only one at which an operand can be missing. -/
theorem fetchOperand_taken (machine : Machine) {opcode : Opcode} (offset : UInt16)
    (taken : offset.toNat ≤ opcode.operandCount)
    (near : machine.counter.toNat + offset.toNat ≤ 256) :
    machine.fetchOperand opcode offset =
      if machine.counter.toNat + offset.toNat = 256 then .error (.pastMemory 256)
      else .ok (machine.memory.read (machine.counter + offset).toUInt8) := by
  have sum : (machine.counter + offset).toNat = machine.counter.toNat + offset.toNat := by
    rw [UInt16.toNat_add]
    omega
  unfold fetchOperand
  rw [if_pos taken]
  split
  · rename_i past
    have address : machine.counter + offset = 256 := UInt16.toNat_inj.mp (sum.trans past)
    rw [address]
    rfl
  · exact machine.memory.fetch_of_lt (by omega)

/-- When all operand bytes are inside memory, those that are taken are read. -/
theorem fetchOperand_inside (machine : Machine) {opcode : Opcode} (offset : UInt16)
    (inside : machine.counter.toNat + opcode.operandCount < 256) :
    ∃ byte, machine.fetchOperand opcode offset = .ok byte ∧
      (offset.toNat ≤ opcode.operandCount →
        byte = machine.memory.read (machine.counter + offset).toUInt8) := by
  by_cases taken : offset.toNat ≤ opcode.operandCount
  · rw [machine.fetchOperand_taken offset taken (by omega), if_neg (by omega)]
    exact ⟨_, rfl, fun _ => rfl⟩
  · exact ⟨0, machine.fetchOperand_untaken offset (Nat.not_le.mp taken), fun h => absurd h taken⟩

theorem fetch_eq (machine : Machine) : machine.fetch =
    let byte := machine.memory.read machine.counter.toUInt8
    if 256 ≤ machine.counter.toNat then .error (.addressing (.pastMemory machine.counter))
    else match Opcode.ofByte? byte with
      | none => .error (.illegalInstruction byte machine.counter)
      | some opcode =>
        if 256 ≤ machine.counter.toNat + opcode.operandCount then
          .error (.addressing (.pastMemory 256))
        else .ok (machine.instruction opcode) := by
  unfold fetch
  by_cases outside : 256 ≤ machine.counter.toNat
  · simp only [machine.memory.fetch_of_le outside, outside, if_true]
    rfl
  simp only [machine.memory.fetch_of_lt (Nat.not_le.mp outside), outside, if_false]
  -- The opcode byte has been read, and nothing but what it decodes to is left.
  change (match Opcode.ofByte? (machine.memory.read machine.counter.toUInt8) with
    | none => _
    | some opcode => _) = _
  cases Opcode.ofByte? (machine.memory.read machine.counter.toUInt8) with
  | none => rfl
  | some opcode =>
    dsimp only
    have one : (1 : UInt16).toNat = 1 := rfl
    have two : (2 : UInt16).toNat = 2 := rfl
    by_cases past : 256 ≤ machine.counter.toNat + opcode.operandCount
    · have few := opcode.operandCount_le_two
      rw [if_pos past, machine.fetchOperand_taken 1 (by omega) (by omega)]
      by_cases last : machine.counter.toNat + (1 : UInt16).toNat = 256
      · rw [if_pos last]
        rfl
      · rw [if_neg last, machine.fetchOperand_taken 2 (by omega) (by omega), if_pos (by omega)]
        rfl
    · have inside := Nat.not_le.mp past
      obtain ⟨first, firstRead, firstTaken⟩ := machine.fetchOperand_inside 1 inside
      obtain ⟨second, secondRead, secondTaken⟩ := machine.fetchOperand_inside 2 inside
      rw [if_neg past, firstRead, secondRead]
      exact congrArg Except.ok (Instruction.ofOperands_congr firstTaken secondTaken)

/-- An instruction is fetched from its opcode byte, if all bytes it takes are inside memory. -/
theorem fetch_eq_ok_iff {machine : Machine} {instruction : Instruction} :
    machine.fetch = .ok instruction ↔
      machine.counter.toNat + instruction.opcode.operandCount < 256 ∧
      machine.memory.read machine.counter.toUInt8 = instruction.opcode.byte ∧
      instruction = machine.instruction instruction.opcode := by
  rw [fetch_eq]
  constructor
  · intro fetched
    dsimp only at fetched
    split at fetched
    · contradiction
    split at fetched
    · contradiction
    rename_i opcode decoded
    split at fetched
    · contradiction
    rename_i inside
    obtain rfl := Except.ok.inj fetched
    have same : (machine.instruction opcode).opcode = opcode :=
      Instruction.opcode_ofOperands opcode _ _
    rw [same]
    exact ⟨Nat.not_le.mp inside, Opcode.ofByte?_eq_some_iff.mp decoded, rfl⟩
  · rintro ⟨inside, byte, same⟩
    have decoded := Opcode.ofByte?_eq_some_iff.mpr byte
    simp only [decoded]
    rw [if_neg (by omega), if_neg (by omega), ← same]

/-- The operand bytes of a fetched instruction stand behind the program counter. -/
theorem operandAt_of_fetch {machine : Machine} {instruction : Instruction}
    (fetched : machine.fetch = .ok instruction) {position : Nat}
    (taken : position < instruction.opcode.operandCount) :
    instruction.operandAt position =
      machine.memory.read (machine.counter + UInt16.ofNat (position + 1)).toUInt8 := by
  obtain ⟨-, -, same⟩ := fetch_eq_ok_iff.mp fetched
  have operands : instruction.operands = [machine.memory.read (machine.counter + 1).toUInt8,
      machine.memory.read (machine.counter + 2).toUInt8].take instruction.opcode.operandCount :=
    (congrArg Instruction.operands same).trans (Instruction.operands_ofOperands ..)
  have few := instruction.opcode.operandCount_le_two
  rw [Instruction.operandAt, operands, List.getD_eq_getElem?_getD, List.getElem?_take_of_lt taken]
  rcases position with _ | _ | more
  · rfl
  · rfl
  · omega

/-- The address after an instruction that was fetched is at most the one past the last cell. -/
theorem toNat_following {machine : Machine} {instruction : Instruction}
    (fetched : machine.fetch = .ok instruction) :
    (machine.following instruction).toNat =
      machine.counter.toNat + instruction.opcode.width := by
  obtain ⟨inside, -, -⟩ := fetch_eq_ok_iff.mp fetched
  have few := instruction.opcode.operandCount_le_two
  rw [following, UInt16.toNat_add, UInt16.toNat_ofNat']
  unfold Opcode.width
  omega

/-- Nothing is noticed of an instruction that cannot be fetched, except the fault. -/
theorem step_unfetched {machine : Machine} {fault : Fault} (running : machine.halted = false)
    (unfetched : machine.fetch = .error fault) :
    machine.step = ⟨{ machine with halted := true }, .error fault,
      [.faulted machine.counter fault]⟩ := by
  simp [step, running, Operation.execute, unfetched]

theorem run_execute {machine : Machine} {instruction : Instruction}
    (fetched : machine.fetch = .ok instruction) :
    Operation.execute.run ⟨machine, []⟩ =
      instruction.outcome (instruction.opcode, instruction.target machine)
        ⟨machine, [.fetched machine.counter instruction]⟩ := by
  have inside : (machine.following instruction).toNat ≤ 256 := by
    have taken := (fetch_eq_ok_iff.mp fetched).1
    rw [toNat_following fetched, Opcode.width]
    omega
  have dispatched := Operation.run_dispatch instruction
    ⟨machine, [.fetched machine.counter instruction]⟩ inside
  simp only [Operation.execute, EStateM.run_bind, Operation.run_look, fetched,
    Operation.run_ofExcept_ok, Operation.run_note, List.nil_append, dispatched]
  unfold Instruction.outcome
  cases instruction.refusal? machine <;> rfl

theorem step_refused {machine : Machine} {instruction : Instruction} {cause : AddressFault}
    (running : machine.halted = false) (fetched : machine.fetch = .ok instruction)
    (refused : instruction.refusal? machine = some cause) :
    machine.step = ⟨{ machine with halted := true }, .error (.addressing cause),
      [.fetched machine.counter instruction,
        .faulted machine.counter (.addressing cause)]⟩ := by
  simp [step, running, run_execute fetched, Instruction.outcome, refused]

theorem step_executed {machine : Machine} {instruction : Instruction}
    (running : machine.halted = false) (fetched : machine.fetch = .ok instruction)
    (accepted : instruction.refusal? machine = none) :
    machine.step = ⟨instruction.next machine, .ok instruction.opcode,
      .fetched machine.counter instruction :: ((instruction.printed machine).map .printed ++
        if (instruction.next machine).halted then [.halted machine.counter] else [])⟩ := by
  unfold step
  rw [if_neg (by simp [running]), run_execute fetched]
  simp only [Instruction.outcome, accepted]
  rfl

/-- The three ways a step from a running machine can go. -/
theorem fetch_cases (machine : Machine) :
    (∃ fault, machine.fetch = .error fault) ∨
    (∃ instruction cause, machine.fetch = .ok instruction ∧
      instruction.refusal? machine = some cause) ∨
    (∃ instruction, machine.fetch = .ok instruction ∧
      instruction.refusal? machine = none) := by
  cases fetched : machine.fetch with
  | error fault => exact .inl ⟨fault, rfl⟩
  | ok instruction =>
    cases refusal : instruction.refusal? machine with
    | some cause => exact .inr (.inl ⟨instruction, cause, rfl, refusal⟩)
    | none => exact .inr (.inr ⟨instruction, rfl, refusal⟩)

/-- A step that succeeds executes the instruction that it fetches. -/
theorem step_eq_ok {machine : Machine} {opcode : Opcode}
    (succeeded : machine.step.result = .ok opcode) :
    machine.halted = false ∧ ∃ instruction : Instruction, instruction.opcode = opcode ∧
      machine.fetch = .ok instruction ∧ instruction.refusal? machine = none := by
  by_cases halted : machine.halted = true
  · rw [step_halted halted] at succeeded
    contradiction
  have running := Bool.eq_false_iff.mpr halted
  refine ⟨running, ?_⟩
  rcases machine.fetch_cases with ⟨fault, unfetched⟩ | ⟨instruction, cause, fetched, refused⟩ |
    ⟨instruction, fetched, accepted⟩
  · rw [step_unfetched running unfetched] at succeeded
    contradiction
  · rw [step_refused running fetched refused] at succeeded
    contradiction
  · rw [step_executed running fetched accepted] at succeeded
    exact ⟨instruction, Except.ok.inj succeeded, fetched, accepted⟩

/-- A step that faults halts the machine and says so, after the instruction if one was fetched. -/
theorem step_faulted {machine : Machine} {fault : Fault} (running : machine.halted = false)
    (faulted : machine.step.result = .error fault) :
    machine.step = ⟨{ machine with halted := true }, .error fault,
      machine.fetch.toOption.toList.map (.fetched machine.counter) ++
        [.faulted machine.counter fault]⟩ := by
  rcases machine.fetch_cases with ⟨cause, unfetched⟩ | ⟨instruction, cause, fetched, refused⟩ |
    ⟨instruction, fetched, accepted⟩
  · have step := step_unfetched running unfetched
    obtain rfl := Except.error.inj (faulted.symm.trans (congrArg Attempt.result step))
    simp only [step, unfetched]
    rfl
  · have step := step_refused running fetched refused
    obtain rfl := Except.error.inj (faulted.symm.trans (congrArg Attempt.result step))
    simp only [step, fetched]
    rfl
  · simp only [step_executed running fetched accepted] at faulted
    contradiction

/-- A step that does not succeed can only halt the machine. -/
theorem step_machine_cases (machine : Machine) :
    (∃ halted, machine.step.machine = { machine with halted }) ∨
    (∃ instruction : Instruction, machine.fetch = .ok instruction ∧
      instruction.refusal? machine = none ∧ machine.step.result = .ok instruction.opcode ∧
      machine.step.machine = instruction.next machine) := by
  by_cases halted : machine.halted = true
  · rw [step_halted halted]
    exact .inl ⟨machine.halted, rfl⟩
  have running := Bool.eq_false_iff.mpr halted
  rcases machine.fetch_cases with ⟨fault, unfetched⟩ | ⟨instruction, cause, fetched, refused⟩ |
    ⟨instruction, fetched, accepted⟩
  · rw [step_unfetched running unfetched]
    exact .inl ⟨true, rfl⟩
  · rw [step_refused running fetched refused]
    exact .inl ⟨true, rfl⟩
  · rw [step_executed running fetched accepted]
    exact .inr ⟨instruction, fetched, accepted, rfl, rfl⟩

end Machine
end LS8
