import LS8.Console.Report
import LS8.Proofs.Assembly.Executing
import LS8.Proofs.Console.Driving
import LS8.Proofs.Machine.Printing

/-! What a session tells, from its first entry to its last: what the assembler noted and that a
program was loaded, then the turns of a run, one for each attempt, and a complaint at the very
end if the session ends with one. How it ends is decided by the run and by whether a value was
lost; neither the entries of other turns nor whether they are traced enters into it. -/
namespace LS8.Console

open Monitor

/-- The text of a complaint, which is written whatever the threshold. -/
def Entry.complaint? : Entry → Option String
  | complaint text => some text
  | noted _ | measured .. | traced _ | happened _ | unprinted .. | executed _ | stopped .. => none

namespace Ending

/-- The ending of a machine that halts by itself, if printing failed at first for this reason. -/
def ofUnprinted : Option String → Ending
  | none => halted
  | some reason => unprinted reason

/-- What is complained of in the end. -/
def complaint? (path : String) : Ending → Option String
  | halted | faulted _ => none
  | unprinted reason => some ("could not print to the standard output: " ++ reason)
  | refused diagnostic => some (path ++ ": " ++ diagnostic.message)
  | rejected fault => some (path ++ ": " ++ fault.message)
  | unreadable fault => some ("could not open " ++ path ++ ": " ++ fault.message)

/-- The entries that close a session. -/
def complaints (path : String) (ending : Option Ending) : List Entry :=
  (ending.bind (complaint? path)).toList.map .complaint

/-- The ending that a run comes to in so many turns. That a machine has halted is noticed in the
turn after its last step, but a fault is noticed at once. -/
def ofRun (limit : Nat) (machine : Machine) (unprinted : Option String) : Option Ending :=
  match (machine.run limit).2.fault? with
  | some fault => some (.faulted fault)
  | none =>
    if 0 < limit ∧ (machine.after (limit - 1)).halted = true then some (.ofUnprinted unprinted)
    else none

theorem ofRun_succ_halted {machine : Machine} (halted : machine.halted = true) (limit : Nat)
    (unprinted : Option String) :
    ofRun (limit + 1) machine unprinted = some (.ofUnprinted unprinted) := by
  simp [ofRun, Machine.run, Machine.drive_eq, History.empty, halted]

theorem ofRun_succ_of_error {machine : Machine} {fault : Fault}
    (running : machine.halted = false) (faulted : machine.step.result = .error fault) (limit : Nat)
    (unprinted : Option String) :
    ofRun (limit + 1) machine unprinted = some (.faulted fault) := by
  have last : (machine.run (limit + 1)).2.fault? = some fault := by
    refine fault_run_iff.mpr ⟨machine, ?_, faulted⟩
    simp [Machine.stepped_of_error running faulted]
  simp only [ofRun, last]

/-- A step that succeeds leaves all else to the turns after it. -/
theorem ofRun_succ_of_ok {machine : Machine} {opcode : Opcode}
    (made : machine.step.result = .ok opcode) (limit : Nat) (unprinted : Option String) :
    ofRun (limit + 1) machine unprinted = ofRun limit machine.step.machine unprinted := by
  have running := (Machine.step_eq_ok made).1
  have fault : (machine.run (limit + 1)).2.fault? = (machine.step.machine.run limit).2.fault? := by
    ext cause
    simp only [fault_run_iff, Machine.stepped_running running, List.getLast?_cons]
    cases (Machine.stepped limit machine.step.machine).getLast? <;> simp [made]
  have halted : (0 < limit + 1 ∧ (machine.after (limit + 1 - 1)).halted = true) ↔
      (0 < limit ∧ (machine.step.machine.after (limit - 1)).halted = true) := by
    cases limit with
    | zero => simp [Machine.after, running]
    | succ limit => simp [Machine.after_succ]
  simp only [ofRun, fault, halted]

end Ending

namespace Session

variable {outlet : Outlet}

@[simp] theorem remember_nil (unprinted : Option String) (outlet : Outlet) :
    remember unprinted outlet [] = unprinted := by
  cases unprinted <;> cases outlet <;> rfl

/-- Only the first failure is remembered, whenever it was. -/
theorem remember_append (unprinted : Option String) (outlet : Outlet) (front back : List Event) :
    remember unprinted outlet (front ++ back) =
      remember (remember unprinted outlet front) outlet back := by
  cases unprinted with
  | some reason => rfl
  | none =>
    cases outlet with
    | accepting => rfl
    | failing reason => cases none : printedIn front <;> simp [remember, none]

/-- The entry that closes the turn of an attempt. -/
def closing (machine : Machine) : Entry :=
  match machine.step.result with
  | .ok opcode => .executed opcode
  | .error fault => .stopped fault (.of machine.step.machine)

/-- The entries of the turn in which a machine makes its next step. -/
def told (traced : Bool) (outlet : Outlet) (machine : Machine) : List Entry :=
  (if traced then machine.snapshot.toList.map .traced else []) ++
    machine.step.events.map (Entry.ofEvent outlet) ++ [closing machine]

/-- The session after the turn in which its machine makes a step. -/
def next (session : Session) (outlet : Outlet) : Session :=
  ⟨session.machine.step.machine, session.traced,
    remember session.unprinted outlet session.machine.step.events⟩

theorem remaining_halted {session : Session} (halted : session.machine.halted = true)
    (path : String) (limit : Nat) :
    let ending := some (Ending.ofUnprinted session.unprinted)
    session.remaining outlet (limit + 1) = (Ending.complaints path ending, ending) := by
  have turned : session.turn outlet = session.close := by simp only [turn, halted, if_true]
  change transcript outlet limit (session.turn outlet) = _
  rw [turned, close]
  cases session.unprinted <;> exact transcript_ended ..

theorem remaining_of_error {session : Session} {fault : Fault}
    (running : session.machine.halted = false)
    (faulted : session.machine.step.result = .error fault) (limit : Nat) :
    session.remaining outlet (limit + 1) =
      (told session.traced outlet session.machine, some (.faulted fault)) := by
  have turned : session.turn outlet =
      ⟨told session.traced outlet session.machine, .ended (.faulted fault)⟩ := by
    simp [turn, told, closing, running, faulted]
  change transcript outlet limit (session.turn outlet) = _
  rw [turned]
  exact transcript_ended ..

theorem remaining_of_ok {session : Session} {opcode : Opcode}
    (made : session.machine.step.result = .ok opcode) (limit : Nat) :
    session.remaining outlet (limit + 1) =
      (told session.traced outlet session.machine ++
          ((session.next outlet).remaining outlet limit).1,
        ((session.next outlet).remaining outlet limit).2) := by
  have turned : session.turn outlet =
      ⟨told session.traced outlet session.machine, .running (session.next outlet)⟩ := by
    simp [turn, told, closing, next, (Machine.step_eq_ok made).1, made]
  change transcript outlet limit (session.turn outlet) = _
  rw [turned]
  exact transcript_eq ..

/-- What a session under way has still to say: the turns of a run and the complaint it ends with. -/
theorem remaining_eq (session : Session) (outlet : Outlet) (limit : Nat) (path : String) :
    let made := session.machine.stepped limit
    let ending := Ending.ofRun limit session.machine
      (remember session.unprinted outlet (made.flatMap fun before => before.step.events))
    session.remaining outlet limit =
      (made.flatMap (told session.traced outlet) ++ Ending.complaints path ending, ending) := by
  induction limit generalizing session with
  | zero => rfl
  | succ limit ih =>
    cases halted : session.machine.halted with
    | true =>
      simp only [remaining_halted halted path, Machine.stepped_halted halted, List.flatMap_nil,
        Ending.ofRun_succ_halted halted, remember_nil, List.nil_append]
    | false =>
      cases made : session.machine.step.result with
      | error fault =>
        simp only [remaining_of_error halted made, Machine.stepped_of_error halted made,
          Ending.ofRun_succ_of_error halted made, List.flatMap_singleton]
        exact congrArg (·, _) (List.append_nil _).symm
      | ok opcode =>
        simp only [remaining_of_ok made, ih, Machine.stepped_running halted,
          Ending.ofRun_succ_of_ok made, List.flatMap_cons, remember_append, next, List.append_assoc]

/-- What a session says before it may complain. -/
def account (traced : Bool) (outlet : Outlet) (limit : Nat) (path : String) :
    Except ReadFault (List UInt8) → List Entry
  | .error _ => []
  | .ok source =>
    let outcome := Assembly.assemble source
    outcome.notices.map .noted ++
      match outcome.result with
      | .error _ => []
      | .ok program =>
        [.measured path program.length, .happened (.loaded program.length)] ++
          ((Machine.fresh.load program).machine.stepped limit).flatMap (told traced outlet)

/-- How a session ends, if it has come to its end. -/
def finish (outlet : Outlet) (limit : Nat) : Except ReadFault (List UInt8) → Option Ending
  | .error fault => some (.unreadable fault)
  | .ok source =>
    match (Assembly.assemble source).result with
    | .error diagnostic => some (.refused diagnostic)
    | .ok program =>
      let machine := (Machine.fresh.load program).machine
      Ending.ofRun limit machine (remember none outlet
        ((machine.stepped limit).flatMap fun before => before.step.events))

/-- Every program that was assembled is loaded, and a fresh machine is ready to run it. -/
theorem load_assembled {source : List UInt8} {program : Assembly.Program}
    (assembled : (Assembly.assemble source).result = .ok program) :
    ∃ memory, Machine.fresh.load program =
        ⟨{ Machine.fresh with memory }, .ok (), [.loaded program.length]⟩ ∧
      Memory.Overlaid program .blank memory :=
  Machine.fresh.load_of_le (Assembly.length_le_of_assembled assembled)

theorem transcript_start (traced : Bool) (outlet : Outlet) (limit : Nat) (path : String)
    (contents : Except ReadFault (List UInt8)) :
    transcript outlet limit (start traced path contents) =
      (account traced outlet limit path contents ++
        Ending.complaints path (finish outlet limit contents), finish outlet limit contents) := by
  cases contents with
  | error fault => exact transcript_ended ..
  | ok source =>
    cases assembled : (Assembly.assemble source).result with
    | error diagnostic =>
      simp only [start, account, finish, assembled, transcript_ended, List.append_nil]
      rfl
    | ok program =>
      obtain ⟨memory, loaded, -⟩ := load_assembled assembled
      have begun : start traced path (.ok source) =
          ⟨(Assembly.assemble source).notices.map .noted ++
            [.measured path program.length, .happened (.loaded program.length)],
            .running ⟨(Machine.fresh.load program).machine, traced, none⟩⟩ := by
        simp [start, assembled, loaded]
      have onward := remaining_eq ⟨(Machine.fresh.load program).machine, traced, none⟩ outlet limit
        path
      rw [transcript_eq, begun]
      change (_ ++ (remaining _ outlet limit).1, (remaining _ outlet limit).2) = _
      simp only [onward, account, finish, assembled, List.append_assoc]

end Session

end LS8.Console
