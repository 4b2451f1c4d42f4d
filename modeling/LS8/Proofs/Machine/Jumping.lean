import LS8.Proofs.Machine.Attempting
import LS8.Proofs.Machine.Halting

/-! Jumps back. A step that succeeds takes its instruction from memory and, unless it transfers
control, goes on behind it; so a run that never goes back reaches the end of memory in as many
steps as there are cells, and finds nothing to execute there. The bound does not look at the
program, which may change under the run. -/
namespace LS8

theorem Instruction.transfers_of_target_le {machine : Machine} {instruction : Instruction}
    (fetched : machine.fetch = .ok instruction)
    (back : (instruction.target machine).toNat ≤ machine.counter.toNat) :
    instruction.transfers machine = true := by
  apply Decidable.not_not.mp
  intro stays
  have next := target_of_stays (Bool.eq_false_iff.mpr stays)
  have behind := Machine.toNat_following fetched
  have wide : 0 < instruction.opcode.width := Nat.succ_pos _
  simp only [next] at back
  omega

namespace Machine

/-- The next step succeeds in transferring control to its own instruction or to an address before
it. A branch transfers control if it is taken. -/
structure JumpsBack (machine : Machine) : Prop where
  transfers : machine.step.result = .ok .call ∨ machine.step.result = .ok .ret ∨
    machine.step.result = .ok .jmp ∨
    (machine.step.result = .ok .jeq ∧ machine.flags.isEqual = true) ∨
    (machine.step.result = .ok .jne ∧ machine.flags.isEqual = false)
  back : machine.step.machine.counter.toNat ≤ machine.counter.toNat

/-- A step that succeeds stays in memory, and goes forward if it does not jump back. -/
theorem counter_step_lt {machine : Machine} {opcode : Opcode}
    (made : machine.step.result = .ok opcode) (forward : ¬machine.JumpsBack) :
    machine.counter.toNat < 256 ∧
      machine.counter.toNat < machine.step.machine.counter.toNat := by
  obtain ⟨running, instruction, rfl, fetched, accepted⟩ := step_eq_ok made
  obtain ⟨inside, -, -⟩ := fetch_eq_ok_iff.mp fetched
  have next : machine.step.machine.counter = instruction.target machine :=
    congrArg (fun attempt => attempt.machine.counter) (step_executed running fetched accepted)
  refine ⟨by omega, Nat.lt_of_not_le fun back => forward ⟨?_, back⟩⟩
  have transfers := Instruction.transfers_of_target_le fetched (next ▸ back)
  rw [made]
  cases instruction
  case call | ret | jmp => simp [Instruction.opcode]
  case jeq a | jne a =>
    simpa [Instruction.opcode, Instruction.transfers, Flags.isEqual, Flags.equalBit] using transfers
  all_goals cases transfers

/-- Without a jump back the program counter grows with every step. -/
theorem le_counter_after {limit : Nat} {machine : Machine}
    (made : ∀ index < limit, ∃ opcode, (after index machine).step.result = .ok opcode)
    (forward : ∀ index < limit, ¬(after index machine).JumpsBack) :
    limit ≤ (after limit machine).counter.toNat := by
  induction limit with
  | zero => exact Nat.zero_le _
  | succ limit ih =>
    have reached := ih (fun index bound => made index (Nat.lt_succ_of_lt bound))
      (fun index bound => forward index (Nat.lt_succ_of_lt bound))
    obtain ⟨opcode, succeeded⟩ := made limit (Nat.lt_succ_self limit)
    obtain ⟨-, further⟩ := counter_step_lt succeeded (forward limit (Nat.lt_succ_self limit))
    rw [after_succ_last]
    omega

/-- Of 257 steps that succeed, one after the other, one jumps back. -/
theorem exists_jumpsBack {machine : Machine}
    (made : ∀ index < 257, ∃ opcode, (after index machine).step.result = .ok opcode) :
    ∃ index < 257, (after index machine).JumpsBack := by
  apply Classical.byContradiction
  intro none
  have forward : ∀ index < 257, ¬(after index machine).JumpsBack :=
    fun index bound back => none ⟨index, bound, back⟩
  -- 256 steps forward leave memory, so the one after them cannot have succeeded
  have reached : 256 ≤ (after 256 machine).counter.toNat :=
    le_counter_after (fun index bound => made index (Nat.lt_succ_of_lt bound))
      (fun index bound => forward index (Nat.lt_succ_of_lt bound))
  obtain ⟨opcode, succeeded⟩ := made 256 (by decide)
  obtain ⟨inside, -⟩ := counter_step_lt succeeded (forward 256 (by decide))
  omega

/-- A machine is running after 257 steps only if one of them has jumped back. -/
theorem exists_jumpsBack_of_running {machine : Machine}
    (running : (after 257 machine).halted = false) :
    ∃ before ∈ stepped 257 machine, before.JumpsBack := by
  obtain ⟨index, bound, back⟩ := exists_jumpsBack fun index bound =>
    (made_of_running running bound).2
  exact ⟨_, mem_stepped_iff.mpr ⟨index, bound, rfl, (made_of_running running bound).1⟩, back⟩

/-- A run that does not jump back makes no more than 257 attempts, and has then halted. -/
theorem length_stepped_le {limit : Nat} {machine : Machine}
    (forward : ∀ before ∈ stepped limit machine, ¬before.JumpsBack) :
    (stepped limit machine).length ≤ 257 ∧
      (257 ≤ limit → (after 257 machine).halted = true) := by
  have ends (long : 257 ≤ limit) : (after 257 machine).halted = true := by
    apply Decidable.not_not.mp
    intro goesOn
    obtain ⟨before, member, back⟩ := exists_jumpsBack_of_running (Bool.eq_false_iff.mpr goesOn)
    exact forward before (stepped_mono long member) back
  refine ⟨Nat.le_of_not_lt fun more => ?_, ends⟩
  obtain ⟨long, -, -⟩ := getElem?_stepped_eq_some.mp (List.getElem?_eq_getElem more)
  exact Bool.eq_false_iff.mp (running_of_lt_length more) (ends (Nat.le_of_lt long))

end Machine
end LS8
