import LS8.Machine.Arithmetic
import LS8.Machine.Operation

/-! One step: fetch the instruction at the program counter, execute it in place, and say
what happened. Two bits of the opcode choose among three ways of executing it, and each
way has its own faults. The program counter moves only when all else is done, so it
stands on the instruction for as long as that can fault. -/
namespace LS8

/-- What became of the machine, of what was asked of it, and what was noticed. -/
structure Attempt (α : Type) where
  machine : Machine
  result : Except Fault α
  events : List Event

namespace Machine

/-- A program that does not fit is refused, and nothing else happens: the machine goes
on as it was. -/
def load (machine : Machine) (program : List UInt8) : Attempt Unit :=
  match machine.memory.load program with
  | .ok memory => ⟨{ machine with memory }, .ok (), [.loaded program.length]⟩
  | .error cause => ⟨machine, .error (.addressing cause), []⟩

/-- The operand byte at an offset from the program counter. A byte that the opcode does
not take is not looked at, so a short instruction may end with memory. -/
def fetchOperand (machine : Machine) (opcode : Opcode) (offset : UInt16) :
    Except AddressFault UInt8 :=
  if offset.toNat ≤ opcode.operandCount then machine.memory.fetch (machine.counter + offset)
  else .ok 0

/-- The instruction at the program counter. -/
def fetch (machine : Machine) : Except Fault Instruction := do
  let byte ← (machine.memory.fetch machine.counter).mapError .addressing
  match Opcode.ofByte? byte with
  | none => .error (.illegalInstruction byte machine.counter)
  | some opcode =>
    let first ← (machine.fetchOperand opcode 1).mapError .addressing
    let second ← (machine.fetchOperand opcode 2).mapError .addressing
    return .ofOperands opcode first second

end Machine

/-- A return address is a byte, so a call in the last two cells has none. -/
def returnAddress (following : UInt16) : Except AddressFault UInt8 :=
  if following.toNat < 256 then .ok following.toUInt8 else .error (.pastMemory following)

namespace Operation

/-- Refuses an instruction that was brought to the wrong place. -/
def misplaced (instruction : Instruction) : Operation α := do
  throw (.illegalInstruction instruction.opcode.byte (← look Machine.counter))

/-- The second register is looked at first. -/
def calculate (opcode : Opcode) (first second : UInt8) : Operation Unit := do
  let second ← register second
  let other ← look (·.get second)
  if opcode = .cmp then
    let first ← register first
    change fun machine => { machine with flags := .ofComparison (machine.get first) other }
  else
    let operation ← MonadExcept.ofExcept (Arithmetic.ofOpcode opcode)
    let first ← register first
    change fun machine => machine.set first (operation.apply (machine.get first) other)

/-- Instructions that have nothing to do with the arithmetic unit or the program counter. -/
def operate (instruction : Instruction) : Operation Unit :=
  match instruction with
  | .hlt => change ({ · with halted := true })
  | .ldi index value => do
    let register ← register index
    change (·.set register value)
  | .prn index => do
    let register ← register index
    let value ← look (·.get register)
    note (.printed value)
  | .push index => pushRegister index
  | .pop index => popRegister index
  | _ => misplaced instruction

/-- The register is looked at whether or not the branch is taken. -/
def branch (taken : Machine → Bool) (index : UInt8) (following : UInt16) : Operation UInt16 := do
  let register ← register index
  let target ← look (·.get register)
  return if ← look taken then target.toUInt16 else following

/-- Instructions that give the next program counter themselves. The target of a call is
read before the stack pointer moves. -/
def transfer (instruction : Instruction) (following : UInt16) : Operation UInt16 :=
  match instruction with
  | .call index => do
    let register ← register index
    let target ← look (·.get register)
    let address ← demand (returnAddress following)
    push address
    return target.toUInt16
  | .ret => return (← pop).toUInt16
  | .jmp index => branch (fun _ => true) index following
  | .jeq index => branch (·.flags.isEqual) index following
  | .jne index => branch (!·.flags.isEqual) index following
  | .hlt | .ldi _ _ | .prn _ | .mul _ _ | .add _ _ | .cmp _ _ | .push _ | .pop _ =>
    misplaced instruction

/-- Sends an instruction where the bits of its opcode say, for the next program counter. -/
def dispatch (instruction : Instruction) (following : UInt16) : Operation UInt16 :=
  if instruction.opcode.setsCounter then transfer instruction following
  else if instruction.opcode.usesArithmeticUnit then do
    calculate instruction.opcode (instruction.operandAt 0) (instruction.operandAt 1)
    return following
  else do
    operate instruction
    return following

/-- Executes the instruction at the program counter, which stays on it. -/
def execute : Operation (Opcode × UInt16) := do
  let counter ← look Machine.counter
  let instruction ← MonadExcept.ofExcept (← look Machine.fetch)
  let following ← look (·.following instruction)
  note (.fetched counter instruction)
  return (instruction.opcode, ← dispatch instruction following)

end Operation

def Machine.step (machine : Machine) : Attempt Opcode :=
  if machine.halted then ⟨machine, .error .halted, []⟩
  else match Operation.execute.run ⟨machine, []⟩ with
    | .ok (opcode, next) progress =>
      let halted := if progress.machine.halted then [.halted machine.counter] else []
      ⟨{ progress.machine with counter := next }, .ok opcode, progress.events ++ halted⟩
    | .error fault progress =>
      ⟨{ progress.machine with halted := true }, .error fault,
        progress.events ++ [.faulted machine.counter fault]⟩

@[simp] theorem Machine.step_halted {machine : Machine} (halted : machine.halted = true) :
    machine.step = ⟨machine, .error .halted, []⟩ := by
  simp [step, halted]

end LS8
