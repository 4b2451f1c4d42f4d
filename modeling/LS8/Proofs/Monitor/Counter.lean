import LS8.Proofs.Machine.Bounded
import LS8.Proofs.Monitor.Sequence

/-! The program counter under all commands. Only steps move it, and they keep it in memory or
right behind; so whatever is done to a fresh machine, its program counter is bounded in every
state of every run, and the one address past memory that is ever reported is 256. -/
namespace LS8.Monitor

theorem counter_apply_le {machine : Machine} (inside : machine.counter.toNat ≤ 256)
    (command : Command) : (command.apply machine).counter.toNat ≤ 256 := by
  obtain ⟨memory, same⟩ := command.apply_eq_after machine
  rw [same]
  exact Machine.counter_after_le inside command.limit

theorem counter_performAll_le (sink : Sink σ) {monitor : Monitor σ}
    (inside : monitor.machine.counter.toNat ≤ 256) (commands : List Command) :
    (monitor.performAll sink commands).machine.counter.toNat ≤ 256 := by
  rw [machine_performAll]
  generalize monitor.machine = machine at inside ⊢
  induction commands generalizing machine with
  | nil => exact inside
  | cons command rest ih => exact ih _ (counter_apply_le inside command)

/-- Whatever was done to a fresh machine, each machine of a run from there is bounded, and no
command reports another address past memory than the first. -/
theorem counter_stays_bounded (sink : Sink σ) (output : σ) (commands : List Command) :
    (∀ index, (Machine.after index
      ((fresh output).performAll sink commands).machine).Bounded) ∧
    (∀ command, ∀ fault ∈
        (((fresh output).performAll sink commands).perform sink command).answer.faults,
      ∀ address, fault = .addressing (.pastMemory address) → address = 0x100) := by
  have start : (fresh output).machine.counter.toNat ≤ 256 := Nat.zero_le 256
  have reached := counter_performAll_le sink start commands
  refine ⟨?_, ?_⟩
  · intro index
    exact Machine.bounded_of_counter_le (Machine.counter_after_le reached index)
  · intro command fault reported address same
    rcases faults_perform reported with ⟨size, large⟩ | ⟨index, failed⟩
    · rw [same] at large
      cases large
    · rw [same] at failed
      exact Machine.address_of_pastMemory (Machine.counter_after_le reached index) failed

/-- Two steps that jump to the last two cells. -/
def leaping : List Command := [.write 0 0x82, .write 1 0x01, .write 2 0xfe, .write 3 0x54,
  .write 4 0x01, .write 0xfe 0x47, .step, .step]

theorem counter_stays_bounded_leaping :
    (((fresh ()).performAll .discard leaping).machine.after 1).Bounded ∧
    (((fresh ()).performAll .discard leaping).machine.after 1).counter.toNat = 256 ∧
    ∃ address, (.addressing (.pastMemory address)) ∈
      (((fresh ()).performAll .discard leaping).perform .discard (.run 2)).answer.faults ∧
        address = 0x100 := by
  obtain ⟨bounded, only⟩ := counter_stays_bounded .discard () leaping
  have reported : (.addressing (.pastMemory 0x100)) ∈
      (((fresh ()).performAll .discard leaping).perform .discard (.run 2)).answer.faults := by
    decide +kernel
  exact ⟨bounded 1, by decide +kernel, 0x100, reported, only (.run 2) _ reported 0x100 rfl⟩

end LS8.Monitor
