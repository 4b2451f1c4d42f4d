import LS8.Assembly.Assembler
import LS8.Console.ReadFault
import LS8.Console.Request
import LS8.Log.Record
import LS8.Machine.Snapshot
import LS8.Machine.Step

/-! Sessions: one program run from the command line, turn by turn. A turn is one step of
the machine and what is written because of it; the sequence of turns does not depend
on which records are shown. Whether a value could be printed is told to the session,
which goes on either way and remembers the first failure. -/
namespace LS8.Console

/-- What printing meets with. -/
inductive Outlet
  | accepting
  | failing (reason : String)
  deriving DecidableEq, Repr

/-- Where a machine stands, with the byte there if there is one. -/
structure Location where
  counter : UInt16
  opcode : Option UInt8
  deriving DecidableEq, Repr

def Location.of (machine : Machine) : Location :=
  ⟨machine.counter, (machine.memory.fetch machine.counter).toOption⟩

def Location.text (location : Location) : String :=
  let counter := location.counter.toNat
  match location.opcode with
  | some opcode => "(pc " ++ Numeral.address.write counter ++ ", opcode " ++
      Numeral.address.write opcode.toNat ++ ")"
  | none => "(pc " ++ Numeral.wideAddress.write counter ++ ")"

/-- One thing that a session has to say. A printed value goes to the output and a
complaint to the errors; all else are records, which show or not by their level. -/
inductive Entry
  | noted (notice : Assembly.Notice)
  | measured (path : String) (size : Nat)
  | traced (snapshot : Snapshot)
  | happened (event : Event)
  | unprinted (value : UInt8) (reason : String)
  | executed (opcode : Opcode)
  | stopped (fault : Fault) (location : Location)
  | complaint (text : String)

/-- How a session ends. -/
inductive Ending
  | halted
  | unprinted (reason : String)
  | faulted (fault : Fault)
  | refused (diagnostic : Assembly.Diagnostic)
  | rejected (fault : Fault)
  | unreadable (fault : ReadFault)
  deriving DecidableEq, Repr

def Ending.status : Ending → Nat
  | halted => 0
  | unprinted _ | refused _ | rejected _ => 1
  | unreadable _ => 2
  | faulted _ => 3

/-- A machine under way, and why its first value that could not be printed could not. -/
structure Session where
  machine : Machine
  traced : Bool
  unprinted : Option String
  deriving DecidableEq

inductive Standing
  | running (session : Session)
  | ended (ending : Ending)

structure Turn where
  entries : List Entry
  standing : Standing

def target : String := "ls8"

namespace Entry

/-- A value that cannot be printed leaves a warning in its place. -/
def ofEvent (outlet : Outlet) (event : Event) : Entry :=
  match event, outlet with
  | .printed value, .failing reason => unprinted value reason
  | event, _ => happened event

/-- The level of the entry's record, if it is one, known without writing the record. -/
def level? : Entry → Option Log.Level
  | noted _ | measured .. => some .debug
  | traced _ => some .info
  | happened event => Log.levelOf? event
  | unprinted .. => some .warn
  | executed _ => some .trace
  | stopped .. => some .error
  | complaint _ => none

def record? : Entry → Option Log.Record
  | noted notice => some (Log.ofNotice notice)
  | measured path size =>
    some ⟨.debug, target, path ++ " is " ++ Numeral.decimal.write size ++ " bytes long"⟩
  | traced snapshot => some ⟨.info, target, snapshot.text⟩
  | happened event => Log.ofEvent? event
  | unprinted value reason => some ⟨.warn, target,
      "could not print " ++ Numeral.decimal.write value.toNat ++ ": " ++ reason⟩
  | executed opcode => some ⟨.trace, target, "executed " ++ opcode.mnemonic⟩
  | stopped fault location => some ⟨.error, target, fault.message ++ " " ++ location.text⟩
  | complaint _ => none

theorem level_record? (entry : Entry) : entry.record?.map Log.Record.level = entry.level? := by
  cases entry <;> simp [record?, level?]

/-- What the entry adds to the output. -/
def output? : Entry → Option String
  | happened (.printed value) => some (Numeral.decimal.write value.toNat)
  | _ => none

/-- What the entry adds to the errors under a threshold. -/
def error? (threshold : Log.Threshold) : Entry → Option String
  | complaint text => some text
  | entry =>
    if entry.level?.any threshold.shows then entry.record?.map Log.Record.line else none

end Entry

namespace Session

/-- The first failure to print is the one reported in the end. -/
def remember (unprinted : Option String) (outlet : Outlet) (events : List Event) : Option String :=
  match unprinted, outlet with
  | some reason, _ => some reason
  | none, .accepting => none
  | none, .failing reason => if (printedIn events).isEmpty then none else some reason

/-- Assembles and loads the contents of a program file. -/
def start (traced : Bool) (path : String) (contents : Except ReadFault (List UInt8)) : Turn :=
  match contents with
  | .error fault =>
    ⟨[.complaint ("could not open " ++ path ++ ": " ++ fault.message)],
      .ended (.unreadable fault)⟩
  | .ok source =>
    let outcome := Assembly.assemble source
    let noted := outcome.notices.map Entry.noted
    match outcome.result with
    | .error diagnostic =>
      ⟨noted ++ [.complaint (path ++ ": " ++ diagnostic.message)], .ended (.refused diagnostic)⟩
    | .ok program =>
      let measured := noted ++ [.measured path program.length]
      let loading := Machine.fresh.load program
      match loading.result with
      | .error fault =>
        ⟨measured ++ [.complaint (path ++ ": " ++ fault.message)], .ended (.rejected fault)⟩
      | .ok () =>
        ⟨measured ++ loading.events.map Entry.happened,
          .running ⟨loading.machine, traced, none⟩⟩

/-- The end of a session whose machine has halted without a fault. -/
def close (session : Session) : Turn :=
  match session.unprinted with
  | none => ⟨[], .ended .halted⟩
  | some reason =>
    ⟨[.complaint ("could not print to the standard output: " ++ reason)],
      .ended (.unprinted reason)⟩

/-- One step, behind its snapshot in a traced session. There is one wherever a session gets to. -/
def turn (session : Session) (outlet : Outlet) : Turn :=
  if session.machine.halted then session.close
  else
    let attempt := session.machine.step
    let before := if session.traced then session.machine.snapshot.toList.map Entry.traced else []
    let entries := before ++ attempt.events.map (Entry.ofEvent outlet)
    match attempt.result with
    | .error fault =>
      ⟨entries ++ [.stopped fault (.of attempt.machine)], .ended (.faulted fault)⟩
    | .ok opcode =>
      ⟨entries ++ [.executed opcode],
        .running ⟨attempt.machine, session.traced,
          remember session.unprinted outlet attempt.events⟩⟩

end Session

/-- Goes on from a turn until the session ends, and folds what an observer makes of each
entry. The ending is missing if the limit on the turns came first. -/
def attend (observe : α → Entry → α) (outlet : Outlet) (limit : Nat) (turn : Turn) (seen : α) :
    α × Option Ending :=
  let seen := turn.entries.foldl observe seen
  match turn.standing, limit with
  | .ended ending, _ => (seen, some ending)
  | .running _, 0 => (seen, none)
  | .running session, limit + 1 => attend observe outlet limit (session.turn outlet) seen

/-- All entries of a session and its ending. -/
def transcript (outlet : Outlet) (limit : Nat) (turn : Turn) : List Entry × Option Ending :=
  match turn.standing, limit with
  | .ended ending, _ => (turn.entries, some ending)
  | .running _, 0 => (turn.entries, none)
  | .running session, limit + 1 =>
    let later := transcript outlet limit (session.turn outlet)
    (turn.entries ++ later.1, later.2)

/-- An observer sees the entries of the transcript, whatever it makes of them. -/
theorem attend_eq (observe : α → Entry → α) (outlet : Outlet) (limit : Nat) (turn : Turn)
    (seen : α) : attend observe outlet limit turn seen =
      ((transcript outlet limit turn).1.foldl observe seen, (transcript outlet limit turn).2) := by
  induction limit generalizing turn seen with
  | zero =>
    unfold attend transcript
    cases turn.standing <;> rfl
  | succ limit ih =>
    unfold attend transcript
    cases turn.standing with
    | ended ending => rfl
    | running session => simp [ih, List.foldl_append]

end LS8.Console
