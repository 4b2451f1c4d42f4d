import LS8.Machine.Event
import LS8.Machine.State

/-! Operations: what is done to a machine in place while a step is under way. A fault takes
nothing back: what an operation changed or let be noticed before it faulted stays. That
a faulting step leaves the machine as it was is therefore no rule of operations, and
holds only because instructions look at everything before they change anything. -/
namespace LS8

/-- A machine in the course of a step, with what has been noticed since the step began. -/
structure Progress where
  machine : Machine
  events : List Event

abbrev Operation := EStateM Fault Progress

namespace Operation

/-- Goes on with a value unless it was refused. -/
def demand (value : Except AddressFault α) : Operation α :=
  MonadExcept.ofExcept (value.mapError .addressing)

def look (view : Machine → α) : Operation α := return view (← get).machine

def change (update : Machine → Machine) : Operation Unit :=
  modify fun progress => { progress with machine := update progress.machine }

def note (event : Event) : Operation Unit :=
  modify fun progress => { progress with events := progress.events ++ [event] }

@[simp] theorem run_ofExcept_ok (value : α) (progress : Progress) :
    (MonadExcept.ofExcept (.ok value) : Operation α).run progress = .ok value progress := rfl

@[simp] theorem run_ofExcept_error (fault : Fault) (progress : Progress) :
    (MonadExcept.ofExcept (.error fault) : Operation α).run progress = .error fault progress := rfl

@[simp] theorem run_demand_ok (value : α) (progress : Progress) :
    (demand (.ok value)).run progress = .ok value progress := rfl

@[simp] theorem run_demand_error (cause : AddressFault) (progress : Progress) :
    (demand (.error cause) : Operation α).run progress =
      .error (.addressing cause) progress := rfl

@[simp] theorem run_throw (fault : Fault) (progress : Progress) :
    (throw fault : Operation α).run progress = .error fault progress := rfl

@[simp] theorem run_map (f : α → β) (operation : Operation α) (progress : Progress) :
    (f <$> operation).run progress =
      match operation.run progress with
      | .ok value progress => .ok (f value) progress
      | .error fault progress => .error fault progress := by
  simp only [EStateM.run, Functor.map, EStateM.map]
  cases operation progress <;> rfl

@[simp] theorem run_look (view : Machine → α) (progress : Progress) :
    (look view).run progress = .ok (view progress.machine) progress := rfl

@[simp] theorem run_change (update : Machine → Machine) (progress : Progress) :
    (change update).run progress =
      .ok () { progress with machine := update progress.machine } := rfl

@[simp] theorem run_note (event : Event) (progress : Progress) :
    (note event).run progress = .ok () { progress with events := progress.events ++ [event] } :=
  rfl

/-- The register a byte names. -/
def register (index : UInt8) : Operation Register := demand (Register.ofByte index)

/-- Moves the stack pointer down and gives its new value. -/
def grow : Operation UInt8 := do
  let pointer ← demand (lowered (← look Machine.stackPointer))
  change (·.set .stackPointer pointer)
  return pointer

def push (value : UInt8) : Operation Unit := do
  let pointer ← grow
  change (·.store pointer value)

/-- The register is read after the stack pointer has moved, so pushing R7 stores the
address it is stored at. -/
def pushRegister (index : UInt8) : Operation Unit := do
  let register ← register index
  let pointer ← grow
  let value ← look (·.get register)
  change (·.store pointer value)

/-- Takes the last byte pushed and moves the stack pointer up. -/
def pop : Operation UInt8 := do
  let pointer ← demand (raised (← look Machine.stackPointer))
  let value ← look Machine.top
  change (·.set .stackPointer pointer)
  return value

/-- The stack pointer is moved after the register is written, so popping R7 leaves it
one past the byte popped. Both are done to a copy of the registers, which takes their
place when nothing more can be refused. -/
def popRegister (index : UInt8) : Operation Unit := do
  let _ ← demand (raised (← look Machine.stackPointer))
  let register ← register index
  let registers ← look fun machine => machine.registers.set register machine.top
  let pointer ← demand (raised registers.stackPointer)
  change ({ · with registers := registers.setStackPointer pointer })

end Operation
end LS8
