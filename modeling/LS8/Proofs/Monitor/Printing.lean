import LS8.Proofs.Machine.Printing
import LS8.Proofs.Monitor.Driving
import LS8.Proofs.Monitor.Halting

/-! Printing under all commands. A sink is handed the values of the PRN instructions that are
executed, in that order, and hands nothing back. So a machine does the same whatever becomes of what
it prints, and a sink that is borrowed gets what it would have got from its owner. -/
namespace LS8.Monitor

namespace Command

variable {machine : Machine} {command : Command}

/-- No step is made by a command that does not ask for any, nor on a halted machine. -/
theorem stepped_eq_nil (idle : command.drives = false ∨ machine.halted = true) :
    command.stepped machine = [] := by
  rcases idle with undriven | halted
  · cases command <;> first | rfl | cases undriven
  · exact Machine.stepped_halted halted command.limit

end Command

/-- What is seen of a reply, the sink apart. -/
def Reply.seen (reply : Reply σ) : Machine × Answer × List Log.Record :=
  (reply.monitor.machine, reply.answer, reply.records)

end LS8.Monitor
