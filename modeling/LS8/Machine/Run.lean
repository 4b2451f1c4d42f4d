import LS8.Machine.Step

/-! Runs: steps one after the other for as long as the machine is running. A program
need not halt, so every run has a limit on the steps attempted. `drive` keeps only
what an observer makes of each attempt, for a run may be long; `attempts` lists them
all and says what `drive` sees. -/
namespace LS8
namespace Machine

/-- The attempts of a run, each with the machine it was made on. -/
def attempts : Nat → Machine → List (Machine × Attempt Opcode)
  | 0, _ => []
  | limit + 1, machine =>
    if machine.halted then []
    else (machine, machine.step) :: attempts limit machine.step.machine

/-- The machine after a run. -/
def after : Nat → Machine → Machine
  | 0, machine => machine
  | limit + 1, machine => if machine.halted then machine else after limit machine.step.machine

/-- Runs the machine and folds what an observer makes of each attempt. -/
def drive (observe : α → Machine → Attempt Opcode → α) : Nat → Machine → α → Machine × α
  | 0, machine, seen => (machine, seen)
  | limit + 1, machine, seen =>
    if machine.halted then (machine, seen)
    else
      let attempt := machine.step
      drive observe limit attempt.machine (observe seen machine attempt)

theorem drive_eq (observe : α → Machine → Attempt Opcode → α) (limit : Nat) (machine : Machine)
    (seen : α) : drive observe limit machine seen =
      (after limit machine, (attempts limit machine).foldl (fun seen attempt =>
        observe seen attempt.1 attempt.2) seen) := by
  induction limit generalizing machine seen with
  | zero => rfl
  | succ limit ih =>
    unfold drive after attempts
    split
    · rfl
    · exact ih _ _

@[simp] theorem attempts_halted {machine : Machine} (halted : machine.halted = true) (limit : Nat) :
    attempts limit machine = [] := by
  cases limit <;> simp [attempts, halted]

@[simp] theorem after_halted {machine : Machine} (halted : machine.halted = true) (limit : Nat) :
    after limit machine = machine := by
  cases limit <;> simp [after, halted]

end Machine

/-- What a run leaves to be told: the events in order, and the fault of its last attempt
if that failed. An attempt that fails is the last one, for it halts the machine. -/
structure History where
  fault? : Option Fault
  events : Array Event

namespace History

def empty : History := ⟨none, #[]⟩

def record (history : History) (attempt : Attempt Opcode) : History :=
  let fault? := match attempt.result with
    | .error fault => some fault
    | .ok _ => none
  ⟨fault?, history.events ++ attempt.events⟩

end History

def Machine.run (limit : Nat) (machine : Machine) : Machine × History :=
  machine.drive (fun history _ attempt => history.record attempt) limit .empty

end LS8
