import LS8.Instruction.Basic
import LS8.Machine.Fault

/-! Events: what a machine does that its surroundings can notice, in the order in which
it happens. Printing is an event like the others, so that what a program prints and
what is recorded about it stay in one sequence. -/
namespace LS8

inductive Event
  | loaded (size : Nat)
  /-- The instruction and all its operands were read; it may still fault. -/
  | fetched (counter : UInt16) (instruction : Instruction)
  | printed (value : UInt8)
  | halted (counter : UInt16)
  | faulted (counter : UInt16) (fault : Fault)
  deriving DecidableEq, Repr

namespace Event

def printed? : Event → Option UInt8
  | printed value => some value
  | _ => none

end Event

/-- The values printed in the course of some events. -/
def printedIn (events : List Event) : List UInt8 := events.filterMap Event.printed?

@[simp] theorem printedIn_append (front back : List Event) :
    printedIn (front ++ back) = printedIn front ++ printedIn back := by
  simp [printedIn]

end LS8
