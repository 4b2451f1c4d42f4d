import LS8.Proofs.Machine.Running
import LS8.Proofs.Machine.Stepping

/-! Comparisons. A step sets the flags if it executes a CMP, and leaves them alone otherwise,
whether it faults, computes a value in the same unit or does anything else. So the flags after a
run are those of its last comparison. -/
namespace LS8

namespace Flags

end Flags

namespace Machine

variable {machine : Machine}

end Machine
end LS8
