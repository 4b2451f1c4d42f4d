import LS8.Proofs.Machine.Halting
import LS8.Proofs.Machine.Stepping

/-! Calls and jumps. A call pushes the address behind it and goes to the address in a register. It
looks at the register before it pushes, so that it is a push and then a jump through any register
but R7: the push has moved the stack pointer by the time a jump would look at it. -/
namespace LS8.Machine

variable {machine : Machine} {index : UInt8}

/-- The machine with one more byte on its stack. -/
def pushed (machine : Machine) (value : UInt8) : Machine :=
  let moved := machine.set .stackPointer (machine.stackPointer - 1)
  moved.store moved.stackPointer value

/-- The machine with a byte and then a jump done. -/
def pushedAndJumped (machine : Machine) (value index : UInt8) : Machine :=
  { machine.pushed value with
    counter := ((machine.pushed value).get (.named index)).toUInt16 }

theorem stackPointer_pushed (machine : Machine) (value : UInt8) :
    (machine.pushed value).stackPointer = machine.stackPointer - 1 :=
  stackPointer_set machine (machine.stackPointer - 1)

/-- Of the registers a push moves R7 and no other. -/
theorem get_pushed_eq_iff (machine : Machine) (value : UInt8) (register : Register) :
    (machine.pushed value).get register = machine.get register ↔ register ≠ .stackPointer := by
  by_cases pointer : register = .stackPointer
  · subst pointer
    have moves : machine.stackPointer - 1 ≠ machine.stackPointer := by
      intro same
      have value := congrArg UInt8.toNat same
      rw [UInt8.toNat_sub] at value
      change (256 - 1 + machine.stackPointer.toNat) % 256 = machine.stackPointer.toNat at value
      omega
    rw [get_stackPointer, get_stackPointer, stackPointer_pushed]
    simp [moves]
  · have kept : (machine.pushed value).get register = machine.get register :=
      get_set_other machine _ pointer
    simp [kept, pointer]

theorem step_call_eq (fetched : machine.fetch = .ok (.call index))
    (called : machine.step.result = .ok .call) :
    ¬7 < index ∧ machine.step.machine =
      { machine.pushed (machine.counter + 2).toUInt8 with
        counter := (machine.get (.named index)).toUInt16 } := by
  obtain ⟨running, instruction, -, same, accepted⟩ := step_eq_ok called
  obtain rfl := Except.ok.inj (fetched.symm.trans same)
  refine ⟨?_, ?_⟩
  · intro above
    simp [Instruction.refusal?, above] at accepted
  · rw [step_executed running fetched accepted]
    rfl

/-- A call goes where its register pointed before the push, whichever register it is. That is
where a jump behind the push goes too, unless the register is R7. -/
theorem call_reads_before_push (fetched : machine.fetch = .ok (.call index))
    (called : machine.step.result = .ok .call) :
    machine.step.machine =
        { machine.pushed (machine.counter + 2).toUInt8 with
          counter := (machine.get (.named index)).toUInt16 } ∧
      (machine.step.machine = machine.pushedAndJumped (machine.counter + 2).toUInt8 index ↔
        index ≠ 7) := by
  obtain ⟨named, next⟩ := step_call_eq fetched called
  refine ⟨next, ?_⟩
  have apart : Register.named index ≠ .stackPointer ↔ index ≠ 7 :=
    not_congr (Register.named_eq_stackPointer_iff named)
  rw [next, ← apart, ← get_pushed_eq_iff machine (machine.counter + 2).toUInt8]
  constructor
  · intro same
    have counters : (machine.get (.named index)).toUInt16 =
        ((machine.pushed (machine.counter + 2).toUInt8).get (.named index)).toUInt16 :=
      congrArg counter same
    exact (UInt8.toUInt16_inj.mp counters).symm
  · intro same
    rw [pushedAndJumped, same]

/-- A machine about to call through R7. -/
def selfCalling : Machine := (fresh.store 0 0x50).store 1 0x07

theorem call_reads_before_push_selfCalling :
    selfCalling.step.result = .ok .call ∧
    selfCalling.step.machine = { selfCalling.pushed 2 with counter := 0xf4 } ∧
    (selfCalling.step.machine = selfCalling.pushedAndJumped 2 7 ↔ (7 : UInt8) ≠ 7) := by
  have fetched : selfCalling.fetch = .ok (.call 7) := fetch_eq_ok_iff.mpr (by decide +kernel)
  have called : selfCalling.step.result = .ok .call := rfl
  obtain ⟨next, jumps⟩ := call_reads_before_push fetched called
  exact ⟨called, next, jumps⟩

/-- Through R7 a call does not go to the address that R7 has after the push. -/
theorem call_misses_pushed_stackPointer :
    selfCalling.step.result = .ok .call ∧
    selfCalling.step.machine.counter ≠ selfCalling.step.machine.stackPointer.toUInt16 := by
  decide +kernel

end LS8.Machine
