import LS8.Monitor.Command
import LS8.Proofs.Machine.Stepping

/-! Faults of a step: which fault arises, exactly, and that it leaves nothing half done. The
faults that a step reports are those of `Machine.fault?`, case by case; what was changed in
place before a fault is nothing. -/
namespace LS8.Machine

/-- The cases of `fault?` are those in which nothing can be fetched, and then the refusals. -/
theorem fault?_eq (machine : Machine) : machine.fault? =
    match machine.fetch with
    | .error fault => some fault
    | .ok instruction => (instruction.refusal? machine).map .addressing := by
  rw [fetch_eq, fault?]
  by_cases outside : 256 ≤ machine.counter.toNat
  · simp only [outside, if_true]
  cases decoded : Opcode.ofByte? (machine.memory.read machine.counter.toUInt8) with
  | none => simp only [outside, decoded, if_false]
  | some opcode =>
    by_cases past : 256 ≤ machine.counter.toNat + opcode.operandCount <;>
      simp only [outside, decoded, past, if_true, if_false]

/-- The fault of a step, if it has one. -/
theorem error_result_iff {machine : Machine} (running : machine.halted = false) (fault : Fault) :
    machine.step.result = .error fault ↔ machine.fault? = some fault := by
  rw [fault?_eq]
  rcases machine.fetch_cases with ⟨cause, unfetched⟩ | ⟨instruction, cause, fetched, refused⟩ |
    ⟨instruction, fetched, accepted⟩
  · simp [step_unfetched running unfetched, unfetched]
  · simp [step_refused running fetched refused, fetched, refused]
  · simp [step_executed running fetched accepted, fetched, accepted]

/-- A machine in which popping R7 would move the stack pointer past the last cell. -/
def brimming : Machine :=
  (((fresh.store 0 0x46).store 1 0x07).store 0x80 0xff).set .stackPointer 0x80

theorem fault?_brimming : brimming.fault? = some (.addressing .stackUnderflow) := by
  decide +kernel

/-- A fault changes no cell, no register, no flag and not the program counter, and it prints
nothing, wherever the values printed go. -/
theorem fault_changes_nothing {machine : Machine} {fault : Fault}
    (running : machine.halted = false) (faulted : machine.step.result = .error fault) :
    machine.step.machine = { machine with halted := true } ∧
    printedIn machine.step.events = [] ∧
    ∀ {σ : Type} (sink : Sink σ) (output : σ),
      (Monitor.step ⟨machine, output⟩ sink).monitor = ⟨{ machine with halted := true }, output⟩ := by
  have quiet : machine.step.machine = { machine with halted := true } ∧
      printedIn machine.step.events = [] := by
    rcases machine.fetch_cases with ⟨cause, unfetched⟩ | ⟨instruction, cause, fetched, refused⟩ |
      ⟨instruction, fetched, accepted⟩
    · rw [step_unfetched running unfetched]
      exact ⟨rfl, rfl⟩
    · rw [step_refused running fetched refused]
      exact ⟨rfl, rfl⟩
    · rw [step_executed running fetched accepted] at faulted
      contradiction
  refine ⟨quiet.1, quiet.2, ?_⟩
  intro σ sink output
  simp only [Monitor.step, Monitor.settle, quiet.1, quiet.2]
  rfl

theorem fault_changes_nothing_brimming :
    brimming.halted = false ∧
    brimming.step.result = .error (.addressing .stackUnderflow) ∧
    brimming.step.machine = { brimming with halted := true } ∧
    printedIn brimming.step.events = [] :=
  have faulted := (error_result_iff rfl _).mpr fault?_brimming
  have unchanged := fault_changes_nothing rfl faulted
  ⟨rfl, faulted, unchanged.1, unchanged.2.1⟩

/-- A step of a running machine faults exactly as `fault?` says, by the first case that applies,
and succeeds when none does. -/
theorem step_faults_iff (machine : Machine) (running : machine.halted = false) :
    (∀ fault, machine.step.result = .error fault ↔ machine.fault? = some fault) ∧
    (machine.fault? = none → ∃ opcode : Opcode,
      machine.memory.read machine.counter.toUInt8 = opcode.byte ∧
      machine.step.result = .ok opcode) := by
  refine ⟨error_result_iff running, fun none => ?_⟩
  rcases machine.fetch_cases with ⟨cause, unfetched⟩ | ⟨instruction, cause, fetched, refused⟩ |
    ⟨instruction, fetched, accepted⟩
  · simp [fault?_eq, unfetched] at none
  · simp [fault?_eq, fetched, refused] at none
  · rw [step_executed running fetched accepted]
    exact ⟨instruction.opcode, (fetch_eq_ok_iff.mp fetched).2.1, rfl⟩

theorem step_faults_iff_brimming :
    brimming.halted = false ∧
    brimming.fault? = some (.addressing .stackUnderflow) ∧
    brimming.step.result = .error (.addressing .stackUnderflow) :=
  ⟨rfl, fault?_brimming, ((step_faults_iff brimming rfl).1 _).mpr fault?_brimming⟩

end LS8.Machine
