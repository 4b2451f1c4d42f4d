import LS8.Proofs.Machine.Writing

/-! Calls and returns. The return address of a call is written to the cell that the stack pointer
then names. Whatever runs after it, that cell can be written again only from above, so as long
as the stack pointer does not rise past it, a return that finds the stack pointer there goes
back behind the call. -/
namespace LS8.Machine

/-- A call that succeeds has a return address, and leaves it where the stack pointer stands. -/
theorem step_call {machine : Machine} (called : machine.step.result = .ok .call) :
    machine.counter.toNat + 2 < 256 ∧ machine.stackPointer ≠ 0 ∧
      machine.step.machine.memory.read (machine.stackPointer - 1) =
        (machine.counter + 2).toUInt8 := by
  obtain ⟨running, instruction, opcode, fetched, accepted⟩ := step_eq_ok called
  obtain ⟨inside, -, -⟩ := fetch_eq_ok_iff.mp fetched
  cases instruction
  case call a =>
    obtain ⟨-, past, room⟩ := Instruction.refusal?_call_eq_none_iff.mp accepted
    have taken : Opcode.operandCount .call = 1 := by decide
    change machine.counter.toNat + Opcode.operandCount .call < 256 at inside
    have sum : (machine.counter + 2).toNat = machine.counter.toNat + 2 := by
      rw [UInt16.toNat_add]
      change (machine.counter.toNat + 2) % 65536 = machine.counter.toNat + 2
      omega
    have distinct : (machine.counter + 2).toNat ≠ 256 := fun same => past (UInt16.toNat_inj.mp same)
    refine ⟨by omega, room, ?_⟩
    rw [step_executed running fetched accepted]
    simp [Instruction.next, Instruction.effect, store]
  all_goals cases opcode

/-- A return succeeds unless the stack pointer stands at the last cell. -/
theorem step_ret {machine : Machine} (running : machine.halted = false)
    (returning : machine.fetch = .ok .ret) (room : machine.stackPointer ≠ 255) :
    machine.step.result = .ok .ret ∧ machine.step.machine.counter = machine.top.toUInt16 ∧
      machine.step.machine.stackPointer = machine.stackPointer + 1 := by
  rw [step_executed running returning (Instruction.refusal?_ret_eq_none_iff.mpr room)]
  exact ⟨rfl, rfl, stackPointer_set machine (machine.stackPointer + 1)⟩

/-- A call is returned from, however long the run between the call and the return. -/
theorem call_returns {machine : Machine} {stack limit : Nat}
    (called : machine.step.result = .ok .call)
    (pointer : machine.stackPointer.toNat = stack + 1)
    (within : ∀ index ≤ limit, (after index machine.step.machine).stackPointer.toNat ≤ stack)
    (running : (after limit machine.step.machine).halted = false)
    (level : (after limit machine.step.machine).stackPointer.toNat = stack)
    (returning : (after limit machine.step.machine).fetch = .ok .ret) :
    (after limit machine.step.machine).step.result = .ok .ret ∧
    (after limit machine.step.machine).step.machine.counter.toNat = machine.counter.toNat + 2 ∧
    (after limit machine.step.machine).step.machine.stackPointer.toNat = stack + 1 := by
  obtain ⟨inside, room, stored⟩ := step_call called
  have frame : (machine.stackPointer - 1).toNat = stack := by
    have lowered := toNat_eq_lowered room
    omega
  -- the frame's cell can be written only from the address above it
  have kept : (after limit machine.step.machine).memory.read (machine.stackPointer - 1) =
      (machine.counter + 2).toUInt8 := by
    rw [← stored]
    apply read_after
    intro before member pushes
    obtain ⟨index, bound, reached, -⟩ := mem_stepped_iff.mp member
    have low := within index (Nat.le_of_lt bound)
    have above := pushes.above
    rw [reached] at low
    omega
  have top : (after limit machine.step.machine).top = (machine.counter + 2).toUInt8 := by
    have same : (after limit machine.step.machine).stackPointer = machine.stackPointer - 1 :=
      UInt8.toNat_inj.mp (level.trans frame.symm)
    rw [top, same]
    exact kept
  have bound := machine.stackPointer.toNat_lt
  have below : (after limit machine.step.machine).stackPointer ≠ 255 := by
    intro last
    rw [last] at level
    change 255 = stack at level
    omega
  obtain ⟨succeeded, counter, raised⟩ := step_ret running returning below
  refine ⟨succeeded, ?_, ?_⟩
  · rw [counter, top]
    change (machine.counter + 2).toNat % 256 = machine.counter.toNat + 2
    rw [UInt16.toNat_add]
    change (machine.counter.toNat + 2) % 65536 % 256 = machine.counter.toNat + 2
    omega
  · rw [raised, UInt8.toNat_add, level]
    change (stack + 1) % 256 = stack + 1
    omega

/-- A machine about to call a routine that pushes and pops a byte. -/
def calling : Machine :=
  let code : List (UInt8 × UInt8) := [(0, 0x50), (1, 0x00), (2, 0x01),
    (16, 0x45), (17, 0x00), (18, 0x46), (19, 0x01), (20, 0x11)]
  code.foldl (fun machine cell => machine.store cell.1 cell.2) (fresh.set (.named 0) 16)

theorem call_returns_calling :
    calling.step.result = .ok .call ∧
    (after 2 calling.step.machine).step.result = .ok .ret ∧
    (after 2 calling.step.machine).step.machine.counter.toNat =
      calling.counter.toNat + 2 := by
  have called : calling.step.result = .ok .call := rfl
  have pointer : calling.stackPointer.toNat = 243 + 1 := by decide +kernel
  have within : ∀ index ≤ 2, (after index calling.step.machine).stackPointer.toNat ≤ 243 := by
    decide +kernel
  have returning : (after 2 calling.step.machine).fetch = .ok .ret :=
    fetch_eq_ok_iff.mpr (by decide +kernel)
  obtain ⟨returned, counter, -⟩ := call_returns called pointer within
    (by decide +kernel) (by decide +kernel) returning
  exact ⟨called, returned, counter⟩

end LS8.Machine
