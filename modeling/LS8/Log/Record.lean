import LS8.Assembly.Draft
import LS8.Machine.Event

/-! Records: what the machine and the assembler do, as lines with a level and the name
of the part that wrote them. Values printed by a program are output and not records.
A threshold hides the levels below it without changing those above. -/
namespace LS8.Log

inductive Level
  | error | warn | info | debug | trace
  deriving DecidableEq, Repr

namespace Level

/-- The graver a level, the lower its rank. -/
def rank : Level → Nat
  | error => 0
  | warn => 1
  | info => 2
  | debug => 3
  | trace => 4

def name : Level → String
  | error => "ERROR"
  | warn => "WARN"
  | info => "INFO"
  | debug => "DEBUG"
  | trace => "TRACE"

end Level

/-- The least grave level that is shown; with none, nothing is. -/
abbrev Threshold := Option Level

def Threshold.shows (threshold : Threshold) (level : Level) : Bool :=
  threshold.any fun least => level.rank ≤ least.rank

def Threshold.named? : String → Option Threshold
  | "off" => some none
  | "error" => some (some .error)
  | "warn" => some (some .warn)
  | "info" => some (some .info)
  | "debug" => some (some .debug)
  | "trace" => some (some .trace)
  | _ => none

structure Record where
  level : Level
  target : String
  text : String
  deriving DecidableEq, Repr

def Record.line (record : Record) : String :=
  record.level.name ++ " " ++ record.target ++ ": " ++ record.text

def machineTarget : String := "ls8::machine"

def assemblerTarget : String := "ls8asm"

private def bytes (values : List UInt8) : String :=
  String.join (values.map fun value => " " ++ Numeral.address.write value.toNat)

/-- The level of an event's record, known without writing the record. -/
def levelOf? : Event → Option Level
  | .printed _ => none
  | .fetched .. => some .trace
  | .loaded _ | .halted _ | .faulted .. => some .debug

/-- Fetching is recorded with two operand bytes, zeros standing for those not taken. -/
def ofEvent? : Event → Option Record
  | .loaded size =>
    some ⟨.debug, machineTarget, "loaded " ++ Numeral.decimal.write size ++ " bytes"⟩
  | .fetched counter instruction =>
    some ⟨.trace, machineTarget, Numeral.address.write counter.toNat ++ ": " ++
      instruction.opcode.mnemonic ++ bytes [instruction.operandAt 0, instruction.operandAt 1]⟩
  | .printed _ => none
  | .halted counter =>
    some ⟨.debug, machineTarget, "halted at " ++ Numeral.address.write counter.toNat⟩
  | .faulted counter fault =>
    some ⟨.debug, machineTarget,
      "faulted at " ++ Numeral.address.write counter.toNat ++ ": " ++ fault.message⟩

@[simp] theorem level_ofEvent? (event : Event) :
    (ofEvent? event).map Record.level = levelOf? event := by
  cases event <;> rfl

theorem ofEvent?_fetched (counter : UInt16) (instruction : Instruction) :
    ofEvent? (.fetched counter instruction) = some ⟨.trace, machineTarget,
      Numeral.address.write counter.toNat ++ ": " ++ instruction.opcode.mnemonic ++
        " " ++ Numeral.address.write (instruction.operandAt 0).toNat ++
        " " ++ Numeral.address.write (instruction.operandAt 1).toNat⟩ := by
  simp [ofEvent?, bytes, String.join, String.append_assoc]

def ofNotice : Assembly.Notice → Record
  | .label label address =>
    ⟨.debug, assemblerTarget, "label " ++ label.text ++ " at " ++ Numeral.address.write address⟩
  | .patched label target address =>
    ⟨.debug, assemblerTarget, "patched " ++ label.text ++ " (" ++
      Numeral.address.write target.toNat ++ ") at " ++ Numeral.address.write address⟩

@[simp] theorem level_ofNotice (notice : Assembly.Notice) : (ofNotice notice).level = .debug := by
  cases notice <;> rfl

/-- The records of an activity, what the assembler noted before what the machine did. -/
def ofActivity (notices : List Assembly.Notice) (events : List Event) : List Record :=
  notices.map ofNotice ++ events.filterMap ofEvent?

end LS8.Log
