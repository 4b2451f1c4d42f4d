import LS8.Proofs.Machine.Table

/-! Execution follows the instruction table. Each operation is shown to look for every refusal
before its first change, so that a refused instruction hands back the progress it was
given; the bits of an opcode are shown to send it where its row of the table is carried
out, which leaves the refusals of a misplaced instruction without a use. -/
namespace LS8

/-- What a row of the table comes to in the course of a step: a refusal with nothing done, or
all that the row says. -/
def Instruction.outcome (instruction : Instruction) (value : α) (progress : Progress) :
    EStateM.Result Fault Progress α :=
  match instruction.refusal? progress.machine with
  | some cause => .error (.addressing cause) progress
  | none => .ok value ⟨instruction.effect progress.machine,
      progress.events ++ (instruction.printed progress.machine).map .printed⟩

namespace Operation

open Instruction (outcome refusal? effect printed target)

theorem run_register (index : UInt8) (progress : Progress) :
    (register index).run progress =
      if 7 < index then .error (.addressing (.register index)) progress
      else .ok (.named index) progress := by
  rw [register, Register.ofByte_eq]
  split <;> rfl

theorem run_lowered (pointer : UInt8) (progress : Progress) :
    (demand (lowered pointer)).run progress =
      if pointer = 0 then .error (.addressing .stackOverflow) progress
      else .ok (pointer - 1) progress := by
  unfold lowered
  split <;> rfl

theorem run_raised (pointer : UInt8) (progress : Progress) :
    (demand (raised pointer)).run progress =
      if pointer = 255 then .error (.addressing .stackUnderflow) progress
      else .ok (pointer + 1) progress := by
  unfold raised
  split <;> rfl

theorem run_grow (progress : Progress) :
    grow.run progress =
      if progress.machine.stackPointer = 0 then .error (.addressing .stackOverflow) progress
      else
        let pointer := progress.machine.stackPointer - 1
        .ok pointer { progress with machine := progress.machine.set .stackPointer pointer } := by
  by_cases full : progress.machine.stackPointer = 0 <;> simp [grow, run_lowered, full]

theorem run_push (value : UInt8) (progress : Progress) :
    (push value).run progress =
      if progress.machine.stackPointer = 0 then .error (.addressing .stackOverflow) progress
      else
        let moved := progress.machine.set .stackPointer (progress.machine.stackPointer - 1)
        .ok () { progress with machine := moved.store moved.stackPointer value } := by
  by_cases full : progress.machine.stackPointer = 0 <;> simp [push, run_grow, full]

theorem run_pop (progress : Progress) :
    pop.run progress =
      if progress.machine.stackPointer = 255 then .error (.addressing .stackUnderflow) progress
      else .ok progress.machine.top { progress with
        machine := progress.machine.set .stackPointer (progress.machine.stackPointer + 1) } := by
  by_cases empty : progress.machine.stackPointer = 255 <;> simp [pop, run_raised, empty]

theorem run_pushRegister (index : UInt8) (progress : Progress) :
    (pushRegister index).run progress = (Instruction.push index).outcome () progress := by
  by_cases above : 7 < index
  · simp [pushRegister, run_register, outcome, refusal?, above]
  by_cases full : progress.machine.stackPointer = 0
  · simp [pushRegister, run_register, run_grow, outcome, refusal?, above, full]
  · simp [pushRegister, run_register, run_grow, outcome, refusal?, effect, printed, above, full]

/-- Two cases leave no room above the stack pointer: it stood at the last cell, or it is the
register written and the byte popped is the last address. -/
theorem run_popRegister (index : UInt8) (progress : Progress) :
    (popRegister index).run progress = (Instruction.pop index).outcome () progress := by
  by_cases empty : progress.machine.stackPointer = 255
  · simp [popRegister, run_raised, outcome, refusal?, empty]
  by_cases above : 7 < index
  · simp [popRegister, run_raised, run_register, outcome, refusal?, empty, above]
  have pointer : (progress.machine.registers.set (.named index)
      progress.machine.top).stackPointer =
      if index = 7 then progress.machine.top else progress.machine.stackPointer :=
    progress.machine.stackPointer_set_named above progress.machine.top
  by_cases last : (progress.machine.registers.set (.named index)
      progress.machine.top).stackPointer = 255
  · have refused : refusal? progress.machine (.pop index) = some .stackUnderflow := by
      rw [last] at pointer
      split at pointer <;> simp_all [refusal?]
    simp [popRegister, run_raised, run_register, outcome, refused, empty, above, last]
  · have accepted : refusal? progress.machine (.pop index) = none := by
      rw [pointer] at last
      split at last <;> simp_all [refusal?]
    have popped : effect progress.machine (.pop index) = { progress.machine with
        registers :=
          let written := progress.machine.registers.set (.named index) progress.machine.top
          written.setStackPointer (written.stackPointer + 1) } := rfl
    have quiet : printed progress.machine (.pop index) = [] := rfl
    simp [popRegister, run_raised, run_register, outcome, accepted, popped, quiet, empty, above,
      last]

/-- Only the three instructions of the arithmetic unit are sent to it, so that no opcode is
refused there. -/
theorem run_calculate (instruction : Instruction) (progress : Progress)
    (arithmetic : instruction.opcode.usesArithmeticUnit = true) :
    (calculate instruction.opcode (instruction.operandAt 0) (instruction.operandAt 1)).run
      progress = instruction.outcome () progress := by
  rw [Opcode.usesArithmeticUnit_iff] at arithmetic
  cases instruction
  case mul a b | add a b =>
    by_cases second : 7 < b
    · simp [calculate, run_register, outcome, refusal?, Instruction.operandAt,
        Instruction.operands, second]
    by_cases first : 7 < a <;>
      simp [calculate, run_register, outcome, refusal?, effect, printed, Instruction.opcode,
        Instruction.operandAt, Instruction.operands, Arithmetic.ofOpcode, Arithmetic.apply,
        second, first]
  case cmp a b =>
    by_cases second : 7 < b
    · simp [calculate, run_register, outcome, refusal?, Instruction.operandAt,
        Instruction.operands, second]
    by_cases first : 7 < a
    · simp [calculate, run_register, outcome, refusal?, Instruction.opcode,
        Instruction.operandAt, Instruction.operands, second, first]
    · simp [calculate, run_register, outcome, refusal?, effect, printed, Instruction.opcode,
        Instruction.operandAt, Instruction.operands, Flags.ofComparison_eq, second, first]
  all_goals simp [Instruction.opcode] at arithmetic

/-- What neither uses the arithmetic unit nor sets the program counter has a place here. -/
theorem run_operate (instruction : Instruction) (progress : Progress)
    (advances : ¬instruction.opcode.setsCounter = true)
    (plain : ¬instruction.opcode.usesArithmeticUnit = true) :
    (operate instruction).run progress = instruction.outcome () progress := by
  rw [Opcode.setsCounter_iff] at advances
  rw [Opcode.usesArithmeticUnit_iff] at plain
  cases instruction
  case hlt => simp [operate, outcome, refusal?, effect, printed]
  case ldi a value =>
    by_cases above : 7 < a <;>
      simp [operate, run_register, outcome, refusal?, effect, printed, above]
  case prn a =>
    by_cases above : 7 < a <;>
      simp [operate, run_register, outcome, refusal?, effect, printed, above]
  case push a => exact run_pushRegister a progress
  case pop a => exact run_popRegister a progress
  all_goals simp [Instruction.opcode] at advances plain

theorem run_branch (taken : Machine → Bool) (index : UInt8) (following : UInt16)
    (progress : Progress) :
    (branch taken index following).run progress =
      if 7 < index then .error (.addressing (.register index)) progress
      else .ok (if taken progress.machine then
        (progress.machine.get (.named index)).toUInt16 else following) progress := by
  by_cases above : 7 < index <;> simp [branch, run_register, above]

theorem returnAddress_of_le {following : UInt16} (inside : following.toNat ≤ 256)
    (byte : following ≠ 256) : returnAddress following = .ok following.toUInt8 := by
  have low : following.toNat ≠ 256 := fun past => byte (UInt16.toNat_inj.mp past)
  exact if_pos (by omega)

theorem returnAddress_past : returnAddress 256 = .error (.pastMemory 256) := rfl

/-- Jumps give the next program counter and change nothing; calls and returns also move the
stack. The address after the instruction is at most the one past the last cell. -/
theorem run_transfer (instruction : Instruction) (progress : Progress)
    (sets : instruction.opcode.setsCounter = true)
    (inside : (progress.machine.following instruction).toNat ≤ 256) :
    (transfer instruction (progress.machine.following instruction)).run progress =
      instruction.outcome (instruction.target progress.machine) progress := by
  rw [Opcode.setsCounter_iff] at sets
  cases instruction
  case call a =>
    have width : UInt16.ofNat Opcode.call.width = 2 := by decide
    have following : progress.machine.following (.call a) = progress.machine.counter + 2 :=
      congrArg (progress.machine.counter + ·) width
    rw [following] at inside ⊢
    by_cases above : 7 < a
    · simp [transfer, run_register, outcome, refusal?, above]
    by_cases past : progress.machine.counter + 2 = 256
    · simp [transfer, run_register, returnAddress_past, outcome, refusal?, above, past]
    have address := returnAddress_of_le inside past
    by_cases full : progress.machine.stackPointer = 0
    · simp [transfer, run_register, address, run_push, outcome, refusal?, above, past, full]
    · simp [transfer, run_register, address, run_push, outcome, refusal?, effect, target, printed,
        above, past, full]
  case ret =>
    by_cases empty : progress.machine.stackPointer = 255 <;>
      simp [transfer, run_pop, outcome, refusal?, effect, target, printed, empty]
  case jmp a =>
    by_cases above : 7 < a <;>
      simp [transfer, run_branch, outcome, refusal?, effect, target, printed, above]
  case jeq a =>
    by_cases above : 7 < a <;>
      simp [transfer, run_branch, outcome, refusal?, effect, target, printed, above]
  case jne a =>
    by_cases above : 7 < a
    · simp [transfer, run_branch, outcome, refusal?, above]
    · cases equal : progress.machine.flags.isEqual <;>
        simp [transfer, run_branch, outcome, refusal?, effect, target, printed, above, equal]
  all_goals simp [Instruction.opcode] at sets

theorem outcome_then {operation : Operation Unit} {instruction : Instruction}
    {progress : Progress} (done : operation.run progress = instruction.outcome () progress)
    (value : α) : (do operation; return value : Operation α).run progress =
      instruction.outcome value progress := by
  rw [EStateM.run_bind, done]
  unfold outcome
  cases instruction.refusal? progress.machine <;> rfl

/-- Whatever the bits of its opcode say, an instruction comes to its row of the table. -/
theorem run_dispatch (instruction : Instruction) (progress : Progress)
    (inside : (progress.machine.following instruction).toNat ≤ 256) :
    (dispatch instruction (progress.machine.following instruction)).run progress =
      instruction.outcome (instruction.target progress.machine) progress := by
  unfold dispatch
  split
  · rename_i sets
    exact run_transfer instruction progress sets inside
  rename_i advances
  have target : instruction.target progress.machine = progress.machine.following instruction := by
    rw [Opcode.setsCounter_iff] at advances
    cases instruction <;> first | rfl | simp [Instruction.opcode] at advances
  rw [target]
  split
  · rename_i arithmetic
    exact outcome_then (run_calculate instruction progress arithmetic) _
  · rename_i plain
    exact outcome_then (run_operate instruction progress advances plain) _

end Operation

end LS8
