import LS8.Proofs.Machine.Jumping
import LS8.Proofs.Monitor.Driving

/-! Long runs jump back. However a machine came to be what it is, it makes no more than 257 attempts
in a row without going back to an instruction or before it. Programs without jumps back therefore
end, and one that does not end goes back again and again. -/
namespace LS8.Monitor

theorem answer_run_ne_unfinished (sink : Sink σ) {monitor : Monitor σ} {limit : Nat}
    (halted : (monitor.machine.after limit).halted = true) :
    (monitor.perform sink (.run limit)).answer ≠ .unfinished := by
  simp only [perform, run, Machine.run, Machine.drive_eq, halted]
  split <;> simp

/-- Of 257 steps in a row that succeed one jumps back: it is a call, a return, a jump or a branch
that is taken, and goes on at its own address or before it. So a run and an iterator come to an end
after at most 257 attempts if none of these jumps back, whatever is pushed onto the program, and a
machine that never halts jumps back in every 257 steps. -/
theorem long_runs_jump_back (sink : Sink σ) (monitor : Monitor σ) :
    ((∀ index < 257, ∃ opcode, (monitor.machine.after index).step.result = .ok opcode) →
      ∃ index < 257, (monitor.machine.after index).JumpsBack) ∧
    (∀ limit, (∀ before ∈ monitor.machine.stepped limit, ¬before.JumpsBack) →
      ((Command.run limit).results monitor.machine).length ≤ 257 ∧
      ((Command.steps limit).results monitor.machine).length ≤ 257 ∧
      (257 ≤ limit → (monitor.machine.after limit).halted = true ∧
        (monitor.perform sink (.run limit)).answer ≠ .unfinished ∧
        yielded? monitor.machine 257 = none)) ∧
    ((∀ index, (monitor.machine.after index).halted = false) → ∀ first,
      ∃ index, first ≤ index ∧ index < first + 257 ∧
        (monitor.machine.after index).JumpsBack) := by
  refine ⟨Machine.exists_jumpsBack, ?_, ?_⟩
  · intro limit forward
    obtain ⟨few, ends⟩ := Machine.length_stepped_le forward
    refine ⟨?_, ?_, ?_⟩
    · simpa [Command.results_eq, Command.stepped, Command.limit] using few
    · simpa [Command.results_eq, Command.stepped, Command.limit] using few
    · intro long
      have halted := Machine.halted_after_mono long (ends long)
      exact ⟨halted, answer_run_ne_unfinished sink halted, yielded?_eq_none.mpr (ends long)⟩
  · intro endless first
    have running : ((monitor.machine.after first).after 257).halted = false := by
      rw [← Machine.after_add]
      exact endless (first + 257)
    obtain ⟨before, member, back⟩ := Machine.exists_jumpsBack_of_running running
    obtain ⟨index, bound, rfl, -⟩ := Machine.mem_stepped_iff.mp member
    refine ⟨first + index, by omega, by omega, ?_⟩
    rwa [Machine.after_add]

/-- A machine that jumps to where it stands. -/
def spinning : Machine := Machine.fresh.store 0 0x54

theorem after_spinning (index : Nat) : spinning.after index = spinning := by
  have fetched : spinning.fetch = .ok (.jmp 0) := rfl
  have same : spinning.step.machine = spinning := by
    rw [Machine.step_executed rfl fetched rfl]
    rfl
  induction index with
  | zero => rfl
  | succ index ih => rw [Machine.after_succ, same, ih]

/-- One machine spins for ever, and another, in which there is no program, ends at once. -/
theorem long_runs_jump_back_spinning :
    (∃ index < 257, (spinning.after index).JumpsBack) ∧
    (∃ index, 1000 ≤ index ∧ index < 1000 + 257 ∧ (spinning.after index).JumpsBack) ∧
    (Machine.fresh.after 300).halted = true ∧
    ((fresh ()).perform .discard (.run 300)).answer ≠ .unfinished ∧
    yielded? .fresh 257 = none := by
  obtain ⟨once, -, again⟩ := long_runs_jump_back .discard ⟨spinning, ()⟩
  obtain ⟨-, ends, -⟩ := long_runs_jump_back .discard (fresh ())
  have made (index : Nat) : (spinning.after index).step.result = .ok .jmp := by
    rw [after_spinning]
    rfl
  have running (index : Nat) : (spinning.after index).halted = false := by
    rw [after_spinning]
    rfl
  have faulted : Machine.fresh.step.result = .error (.illegalInstruction 0 0) := rfl
  have forward : ∀ before ∈ Machine.fresh.stepped 300, ¬before.JumpsBack := by
    rw [Machine.stepped_of_error rfl faulted]
    rintro before member ⟨transfers, -⟩
    obtain rfl := List.mem_singleton.mp member
    simp [faulted] at transfers
  obtain ⟨-, -, halts⟩ := ends 300 forward
  obtain ⟨halted, finished, exhausted⟩ := halts (by decide)
  exact ⟨once fun index _ => ⟨.jmp, made index⟩, again running 1000, halted, finished, exhausted⟩

end LS8.Monitor
