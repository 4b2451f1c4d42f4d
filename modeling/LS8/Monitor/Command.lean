import LS8.Assembly.Assembler
import LS8.Log.Record
import LS8.Machine.Run
import LS8.Machine.Snapshot
import LS8.Monitor.Sink

/-! The monitor drives a machine from outside: it loads programs, steps and runs them,
and looks at and changes cells. Every command is allowed on a halted machine too;
none of them makes it run again. -/
namespace LS8

structure Monitor (σ : Type) where
  machine : Machine
  output : σ

namespace Monitor

def fresh (output : σ) : Monitor σ := ⟨.fresh, output⟩

inductive Command
  | load (program : List UInt8)
  /-- Assembles a source and loads the program. -/
  | source (text : List UInt8)
  | step
  | run (limit : Nat)
  /-- Asks for one executed instruction after another, at most `count` times. -/
  | steps (count : Nat)
  | register (index : UInt8)
  | read (address : UInt8)
  | write (address value : UInt8)
  | trace
  | flags

/-- The snapshot is from just before the step. -/
structure Stepped where
  before : Option Snapshot
  result : Except Fault Opcode

/-- The steps of a run as they are handed out one by one. -/
structure Watched where
  steps : Array Stepped
  events : Array Event

namespace Watched

def empty : Watched := ⟨#[], #[]⟩

def record (watched : Watched) (stepped : Stepped) (events : List Event) : Watched :=
  ⟨watched.steps.push stepped, watched.events ++ events⟩

end Watched

inductive Answer
  | done
  | executed (opcode : Opcode)
  /-- `ended` if the machine was found halted before all steps asked for were made. -/
  | stepped (steps : List Stepped) (ended : Bool)
  | value (byte : UInt8)
  /-- There is no snapshot if the program counter is too high for one. -/
  | snapshot (snapshot : Option Snapshot)
  | flags (flags : Flags)
  | fault (fault : Fault)
  | noRegister (fault : AddressFault)
  | refused (diagnostic : Assembly.Diagnostic)
  /-- The limit of a run was reached with the machine still running. -/
  | unfinished

structure Reply (σ : Type) where
  monitor : Monitor σ
  answer : Answer
  notices : List Assembly.Notice
  events : List Event

def Reply.records (reply : Reply σ) : List Log.Record := Log.ofActivity reply.notices reply.events

/-- The monitor after its machine has done something, what was printed passed on. -/
def settle (monitor : Monitor σ) (sink : Sink σ) (machine : Machine) (events : List Event) :
    Monitor σ :=
  ⟨machine, sink.acceptAll monitor.output (printedIn events)⟩

/-- A command that only looks. -/
def look (monitor : Monitor σ) (answer : Answer) : Reply σ := ⟨monitor, answer, [], []⟩

def load (monitor : Monitor σ) (sink : Sink σ) (program : List UInt8)
    (notices : List Assembly.Notice) : Reply σ :=
  let attempt := monitor.machine.load program
  let answer := match attempt.result with
    | .ok () => .done
    | .error fault => .fault fault
  ⟨monitor.settle sink attempt.machine attempt.events, answer, notices, attempt.events⟩

def source (monitor : Monitor σ) (sink : Sink σ) (text : List UInt8) : Reply σ :=
  let outcome := Assembly.assemble text
  match outcome.result with
  | .ok program => monitor.load sink program outcome.notices
  | .error diagnostic => ⟨monitor, .refused diagnostic, outcome.notices, []⟩

def step (monitor : Monitor σ) (sink : Sink σ) : Reply σ :=
  let attempt := monitor.machine.step
  let answer := match attempt.result with
    | .ok opcode => .executed opcode
    | .error fault => .fault fault
  ⟨monitor.settle sink attempt.machine attempt.events, answer, [], attempt.events⟩

def run (monitor : Monitor σ) (sink : Sink σ) (limit : Nat) : Reply σ :=
  let ran := monitor.machine.run limit
  let events := ran.2.events.toList
  let answer := match ran.2.fault? with
    | some fault => .fault fault
    | none => if ran.1.halted then .done else .unfinished
  ⟨monitor.settle sink ran.1 events, answer, [], events⟩

/-- Drives a machine as `run` does, handing out each step. -/
def watch (count : Nat) (machine : Machine) : Machine × Watched :=
  machine.drive (fun watched machine attempt =>
    Watched.record watched ⟨machine.snapshot, attempt.result⟩ attempt.events) count .empty

def steps (monitor : Monitor σ) (sink : Sink σ) (count : Nat) : Reply σ :=
  let ran := watch count monitor.machine
  let events := ran.2.events.toList
  let ended := decide (ran.2.steps.size < count)
  ⟨monitor.settle sink ran.1 events, .stepped ran.2.steps.toList ended, [], events⟩

def perform (monitor : Monitor σ) (sink : Sink σ) : Command → Reply σ
  | .load program => monitor.load sink program []
  | .source text => monitor.source sink text
  | .step => monitor.step sink
  | .run limit => monitor.run sink limit
  | .steps count => monitor.steps sink count
  | .register index => monitor.look <|
    match monitor.machine.registers.lookup index with
    | .ok value => .value value
    | .error fault => .noRegister fault
  | .read address => monitor.look (.value (monitor.machine.memory.read address))
  | .write address value =>
    let memory := monitor.machine.memory.write address value
    { monitor.look .done with
      monitor := { monitor with machine := { monitor.machine with memory } } }
  | .trace => monitor.look (.snapshot monitor.machine.snapshot)
  | .flags => monitor.look (.flags monitor.machine.flags)

end Monitor
end LS8
