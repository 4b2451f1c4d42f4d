import LS8.Proofs.Machine.Running
import LS8.Proofs.Machine.Stepping

/-! How a machine comes to halt. It does so in a step that executes HLT or that faults, and in no
other; such a step is the last one that a run makes. -/
namespace LS8

/-- What concrete steps come to can be decided. -/
instance decidableEqExcept [DecidableEq ε] [DecidableEq α] : DecidableEq (Except ε α)
  | .ok first, .ok second => decidable_of_iff (first = second) (by rw [Except.ok.injEq])
  | .error first, .error second => decidable_of_iff (first = second) (by rw [Except.error.injEq])
  | .ok _, .error _ => isFalse nofun
  | .error _, .ok _ => isFalse nofun

/-- A step that came to this halted its machine. -/
def Stops (result : Except Fault Opcode) : Prop :=
  result = .ok .hlt ∨ ∃ fault, result = .error fault

theorem not_stops_iff {result : Except Fault Opcode} :
    ¬Stops result ↔ ∃ opcode, opcode ≠ .hlt ∧ result = .ok opcode := by
  cases result with
  | error fault => simp [Stops]
  | ok opcode => simp [Stops]

theorem Instruction.halted_next_iff {machine : Machine} {instruction : Instruction}
    (running : machine.halted = false) :
    (instruction.next machine).halted = true ↔ instruction.opcode = .hlt := by
  cases instruction <;>
    simp [next, effect, opcode, Machine.set, Machine.store, running]

namespace Machine

theorem halted_step_iff {machine : Machine} (running : machine.halted = false) :
    machine.step.machine.halted = true ↔ Stops machine.step.result := by
  rcases machine.fetch_cases with ⟨fault, unfetched⟩ | ⟨instruction, cause, fetched, refused⟩ |
    ⟨instruction, fetched, accepted⟩
  · rw [step_unfetched running unfetched]
    exact iff_of_true rfl (.inr ⟨fault, rfl⟩)
  · rw [step_refused running fetched refused]
    exact iff_of_true rfl (.inr ⟨.addressing cause, rfl⟩)
  · rw [step_executed running fetched accepted]
    refine (Instruction.halted_next_iff running).trans ?_
    simp [Stops]

/-- A step that faults is the last one. -/
theorem stepped_of_error {machine : Machine} {fault : Fault} (running : machine.halted = false)
    (faulted : machine.step.result = .error fault) (limit : Nat) :
    machine.stepped (limit + 1) = [machine] := by
  have halted := (halted_step_iff running).mpr (.inr ⟨fault, faulted⟩)
  rw [stepped_running running, stepped_halted halted]

/-- A machine has halted after a run if it had before, or if a step of the run halted it. -/
theorem halted_after_iff {limit : Nat} {machine : Machine} :
    (after limit machine).halted = true ↔
      machine.halted = true ∨ ∃ before ∈ stepped limit machine, Stops before.step.result := by
  induction limit generalizing machine with
  | zero => simp [after, stepped, attempts]
  | succ limit ih =>
    cases halted : machine.halted with
    | true => simp [after_halted, halted]
    | false =>
      rw [after_succ, ih, halted_step_iff halted, stepped_running halted]
      simp

theorem halted_after_mono {index later : Nat} (within : index ≤ later) {machine : Machine}
    (halted : (after index machine).halted = true) : (after later machine).halted = true := by
  obtain ⟨more, rfl⟩ := Nat.exists_eq_add_of_le within
  rw [after_add, after_halted halted]
  exact halted

/-- All steps have succeeded that a machine has made and is running after. -/
theorem made_of_running {limit : Nat} {machine : Machine}
    (running : (after limit machine).halted = false) {index : Nat} (bound : index < limit) :
    (after index machine).halted = false ∧
      ∃ opcode, (after index machine).step.result = .ok opcode := by
  have live : (after index machine).halted = false :=
    Bool.eq_false_iff.mpr fun halted =>
      Bool.eq_false_iff.mp running (halted_after_mono (Nat.le_of_lt bound) halted)
  have goesOn : ¬Stops (after index machine).step.result := by
    intro stops
    have halted := (halted_step_iff live).mpr stops
    rw [← after_succ_last] at halted
    exact Bool.eq_false_iff.mp running (halted_after_mono bound halted)
  obtain ⟨opcode, -, made⟩ := not_stops_iff.mp goesOn
  exact ⟨live, opcode, made⟩

/-- A step that halts the machine is the last one of its run, and all before it succeeded. -/
theorem stepped_of_stops {limit : Nat} {machine before : Machine}
    (member : before ∈ stepped limit machine) (stops : Stops before.step.result) :
    ∃ index, after index machine = before ∧ before.halted = false ∧
      stepped limit machine = stepped index machine ++ [before] ∧
      ∀ earlier ∈ stepped index machine, ∃ opcode, earlier.step.result = .ok opcode := by
  obtain ⟨index, bound, rfl, running⟩ := mem_stepped_iff.mp member
  obtain ⟨rest, rfl⟩ : ∃ rest, limit = index + 1 + rest := Nat.exists_eq_add_of_le bound
  refine ⟨index, rfl, running, ?_, ?_⟩
  · have halted : (after (index + 1) machine).halted = true := by
      rw [after_succ_last]
      exact (halted_step_iff running).mpr stops
    -- of the run there is what led to the step, the step itself, and nothing on what it left
    have none : stepped rest (after (index + 1) machine) = [] := stepped_halted halted rest
    have last : stepped 1 (after index machine) = [after index machine] := stepped_running running 0
    rw [stepped_add, none, List.append_nil, stepped_add, last]
  · intro earlier member
    obtain ⟨place, within, rfl, -⟩ := mem_stepped_iff.mp member
    exact (made_of_running running within).2

/-- No step is made after one that halts the machine. -/
theorem pairwise_stepped (limit : Nat) (machine : Machine) :
    (stepped limit machine).Pairwise fun earlier _ => ¬Stops earlier.step.result := by
  induction limit generalizing machine with
  | zero => exact .nil
  | succ limit ih =>
    cases halted : machine.halted with
    | true =>
      rw [stepped_halted halted]
      exact .nil
    | false =>
      rw [stepped_running halted]
      refine .cons ?_ (ih machine.step.machine)
      intro later member stops
      rw [stepped_halted ((halted_step_iff halted).mpr stops)] at member
      cases member

theorem getLast?_of_stops {limit : Nat} {machine before : Machine}
    (member : before ∈ stepped limit machine) (stops : Stops before.step.result) :
    (stepped limit machine).getLast? = some before := by
  obtain ⟨index, -, -, same, -⟩ := stepped_of_stops member stops
  rw [same, List.getLast?_concat]

end Machine
end LS8
