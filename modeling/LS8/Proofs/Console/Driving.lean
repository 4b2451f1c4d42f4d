import LS8.Console.Session
import LS8.Proofs.Monitor.Driving

/-! Sessions as runs. A session makes the attempts of a run, whether or not it traces them and
whatever becomes of the values printed, and ends the way the run does. With that, all ways of
driving a machine are the same run. -/
namespace LS8.Console

open Monitor

namespace Entry

/-- What became of an attempt, as the entry that closes its turn tells it. -/
def result? : Entry → Option (Except Fault Opcode)
  | executed opcode => some (.ok opcode)
  | stopped fault _ => some (.error fault)
  | noted _ | measured .. | traced _ | happened _ | unprinted .. | complaint _ => none

/-- The event that an entry tells of. -/
def event? : Entry → Option Event
  | happened event => some event
  | unprinted value _ => some (.printed value)
  | noted _ | measured .. | traced _ | executed _ | stopped .. | complaint _ => none

/-- Entries that tell what became of these attempts, and of these events. -/
def Tells (entries : List Entry) (results : List (Except Fault Opcode)) (events : List Event) :
    Prop :=
  entries.filterMap result? = results ∧ entries.filterMap event? = events

theorem Tells.append {front back : List Entry} {results later : List (Except Fault Opcode)}
    {events laterEvents : List Event} (first : Tells front results events)
    (second : Tells back later laterEvents) :
    Tells (front ++ back) (results ++ later) (events ++ laterEvents) := by
  obtain ⟨rfl, rfl⟩ := first
  obtain ⟨rfl, rfl⟩ := second
  exact ⟨List.filterMap_append, List.filterMap_append⟩

theorem tells_ofEvent (outlet : Outlet) (events : List Event) :
    Tells (events.map (ofEvent outlet)) [] events := by
  induction events with
  | nil => exact ⟨rfl, rfl⟩
  | cons event rest ih =>
    have one : Tells [ofEvent outlet event] [] [event] := by
      cases event <;> cases outlet <;> exact ⟨rfl, rfl⟩
    exact one.append ih

end Entry

/-- An ending that reports no fault. It may still report that a value could not be printed. -/
def Ending.closes : Ending → Bool
  | halted | unprinted _ => true
  | faulted _ | refused _ | rejected _ | unreadable _ => false

theorem transcript_eq (outlet : Outlet) (limit : Nat) (turn : Turn) :
    transcript outlet limit turn =
      (turn.entries ++ (transcript outlet limit ⟨[], turn.standing⟩).1,
        (transcript outlet limit ⟨[], turn.standing⟩).2) := by
  obtain ⟨entries, standing⟩ := turn
  cases limit <;> cases standing <;> simp [transcript]

theorem transcript_ended (outlet : Outlet) (limit : Nat) (entries : List Entry) (ending : Ending) :
    transcript outlet limit ⟨entries, .ended ending⟩ = (entries, some ending) := by
  cases limit <;> rfl

namespace Session

/-- What a session under way has still to say. -/
def remaining (session : Session) (outlet : Outlet) (limit : Nat) : List Entry × Option Ending :=
  transcript outlet limit ⟨[], .running session⟩

/-- What a session has still to say, by what its next turn is. The turn of a running machine is one
attempt, and the entries of that turn tell all of it. -/
inductive Continues (session : Session) (outlet : Outlet) (limit : Nat) :
    List Entry × Option Ending → Prop
  | closed {entries : List Entry} {ending : Ending} (halted : session.machine.halted = true)
    (closing : ending.closes = true) (silent : Entry.Tells entries [] []) :
    Continues session outlet limit (entries, some ending)
  | stopped {entries : List Entry} {fault : Fault} (running : session.machine.halted = false)
    (faulted : session.machine.step.result = .error fault)
    (told : Entry.Tells entries [.error fault] session.machine.step.events) :
    Continues session outlet limit (entries, some (.faulted fault))
  | executed {entries : List Entry} {opcode : Opcode} {next : Session}
    (running : session.machine.halted = false) (made : session.machine.step.result = .ok opcode)
    (told : Entry.Tells entries [.ok opcode] session.machine.step.events)
    (reached : next.machine = session.machine.step.machine) :
    Continues session outlet limit
      (entries ++ (next.remaining outlet limit).1, (next.remaining outlet limit).2)

theorem continues (session : Session) (outlet : Outlet) (limit : Nat) :
    session.Continues outlet limit (session.remaining outlet (limit + 1)) := by
  have next : session.remaining outlet (limit + 1) =
      transcript outlet limit (session.turn outlet) := rfl
  rw [next, turn]
  cases halted : session.machine.halted with
  | true =>
    rw [if_pos rfl, close]
    cases session.unprinted with
    | none =>
      rw [transcript_ended]
      exact .closed halted rfl ⟨rfl, rfl⟩
    | some reason =>
      rw [transcript_ended]
      exact .closed halted rfl ⟨rfl, rfl⟩
  | false =>
    rw [if_neg Bool.false_ne_true]
    have traced : Entry.Tells
        (if session.traced then session.machine.snapshot.toList.map .traced else []) [] [] := by
      split
      · cases session.machine.snapshot <;> exact ⟨rfl, rfl⟩
      · exact ⟨rfl, rfl⟩
    -- what cannot be printed is told of by another entry, but still told of
    have happened := traced.append (Entry.tells_ofEvent outlet session.machine.step.events)
    dsimp only
    cases made : session.machine.step.result with
    | error fault =>
      have last : Entry.Tells [.stopped fault (.of session.machine.step.machine)] [.error fault]
          [] := ⟨rfl, rfl⟩
      rw [transcript_ended]
      exact .stopped halted made (by simpa using happened.append last)
    | ok opcode =>
      have last : Entry.Tells [.executed opcode] [.ok opcode] [] := ⟨rfl, rfl⟩
      rw [transcript_eq]
      exact .executed halted made (by simpa using happened.append last) rfl

/-- A session tells of the attempts of a run, and of nothing else that happened. -/
theorem tells_remaining (session : Session) (outlet : Outlet) (limit : Nat) :
    Entry.Tells (session.remaining outlet limit).1
      ((session.machine.stepped limit).map fun before => before.step.result)
      ((session.machine.stepped limit).flatMap fun before => before.step.events) := by
  induction limit generalizing session with
  | zero => exact ⟨rfl, rfl⟩
  | succ limit ih =>
    have onward := session.continues outlet limit
    generalize session.remaining outlet (limit + 1) = shown at onward ⊢
    cases onward with
    | closed halted _ silent =>
      rw [Machine.stepped_halted halted]
      exact silent
    | stopped running faulted told =>
      rw [Machine.stepped_of_error running faulted]
      simpa [faulted] using told
    | @executed _ _ next running made told reached =>
      rw [Machine.stepped_running running, List.map_cons, List.flatMap_cons, made, ← reached]
      exact told.append (ih next)

/-- A session ends with a fault if one of its attempts faults, and with that one. -/
theorem faulted_iff (session : Session) (outlet : Outlet) (limit : Nat) (fault : Fault) :
    (session.remaining outlet limit).2 = some (.faulted fault) ↔
      ∃ before ∈ session.machine.stepped limit, before.step.result = .error fault := by
  induction limit generalizing session with
  | zero => exact iff_of_false nofun nofun
  | succ limit ih =>
    have onward := session.continues outlet limit
    generalize session.remaining outlet (limit + 1) = shown at onward ⊢
    cases onward with
    | @closed _ ending halted closing =>
      rw [Machine.stepped_halted halted]
      refine iff_of_false ?_ nofun
      rintro ⟨⟩
      cases closing
    | stopped running faulted =>
      rw [Machine.stepped_of_error running faulted]
      simp [faulted]
    | @executed _ _ next running made _ reached =>
      rw [Machine.stepped_running running, ← reached]
      simp [made, ih next]

/-- A session that ends without a fault does so in the turn after its machine has halted. -/
theorem closes_iff (session : Session) (outlet : Outlet) (limit : Nat) :
    (∃ ending, (session.remaining outlet (limit + 1)).2 = some ending ∧ ending.closes = true) ↔
      (session.machine.after limit).halted = true ∧
        ∀ fault, ¬∃ before ∈ session.machine.stepped limit, before.step.result = .error fault := by
  have unfaulted {machine : Machine} (halted : machine.halted = true) (limit : Nat)
      (fault : Fault) : ¬∃ before ∈ machine.stepped limit, before.step.result = .error fault := by
    simp [Machine.stepped_halted halted]
  -- to find the machine halted takes a turn of its own, hence the one turn more than steps
  induction limit generalizing session with
  | zero =>
    have onward := session.continues outlet 0
    generalize session.remaining outlet 1 = shown at onward ⊢
    cases onward with
    | closed halted closing => exact iff_of_true ⟨_, rfl, closing⟩ ⟨halted, unfaulted halted 0⟩
    | stopped running => exact iff_of_false nofun fun ends => Bool.eq_false_iff.mp running ends.1
    | executed running => exact iff_of_false nofun fun ends => Bool.eq_false_iff.mp running ends.1
  | succ limit ih =>
    have onward := session.continues outlet (limit + 1)
    generalize session.remaining outlet (limit + 1 + 1) = shown at onward ⊢
    cases onward with
    | closed halted closing =>
      rw [Machine.after_halted halted]
      exact iff_of_true ⟨_, rfl, closing⟩ ⟨halted, unfaulted halted (limit + 1)⟩
    | stopped running faulted =>
      rw [Machine.stepped_of_error running faulted]
      refine iff_of_false nofun ?_
      rintro ⟨-, none⟩
      exact none _ ⟨_, List.mem_cons_self, faulted⟩
    | @executed _ _ next running made _ reached =>
      rw [Machine.after_succ, Machine.stepped_running running, ← reached]
      simp [made, ih next]

/-- A session is a run: it makes the attempts of one, and ends with the fault that one reports. -/
theorem remaining_is_run (session : Session) (outlet : Outlet) (limit : Nat) (sink : Sink σ)
    {monitor : Monitor σ} (same : session.machine = monitor.machine) :
    Entry.Tells (session.remaining outlet limit).1
      ((Command.run limit).results monitor.machine)
      ((Command.run limit).events monitor.machine) ∧
    (∀ fault, (session.remaining outlet limit).2 = some (.faulted fault) ↔
      (monitor.perform sink (.run limit)).answer = .fault fault) ∧
    ((∃ ending, (session.remaining outlet (limit + 1)).2 = some ending ∧ ending.closes = true) ↔
      (monitor.perform sink (.run limit)).answer = .done) := by
  have failing (fault : Fault) :
      .error fault ∈ (Command.run limit).results monitor.machine ↔
      ∃ before ∈ session.machine.stepped limit, before.step.result = .error fault := by
    rw [Command.results_eq, List.mem_map, same]
    rfl
  refine ⟨?_, ?_, ?_⟩
  · rw [Command.results_eq, ← same]
    exact tells_remaining session outlet limit
  · intro fault
    rw [faulted_iff, answer_run_fault, ← mem_results_iff_last, failing]
  · simp only [closes_iff, answer_run_done, failing, same]

end Session

/-- All ways of driving a machine are the same run. Commands that make it go on attempt, one after
the other, what single steps attempt, with the same values printed and the same records. An iterator
yields one success after another, none of them HLT, until one that is HLT or until one fault, and
nothing from there on. A run answers with the fault of its last attempt, and only with that. So does
a session, whether or not it is traced and its values can be printed. -/
theorem drivers_agree (sink : Sink σ) (monitor : Monitor σ) :
    (∀ commands : List Command, (∀ command ∈ commands, command.drives = true) →
      let total := (gather Command.results monitor.machine commands).length
      let singly := List.replicate total Command.step
      (∀ count < total,
        (monitor.performAll sink (.replicate count .step)).machine.halted = false) ∧
      monitor.performAll sink commands = monitor.performAll sink singly ∧
      gather Command.results monitor.machine commands =
        gather Command.results monitor.machine singly ∧
      (monitor.replies sink commands).flatMap Reply.events =
        (monitor.replies sink singly).flatMap Reply.events ∧
      (monitor.replies sink commands).flatMap Reply.records =
        (monitor.replies sink singly).flatMap Reply.records) ∧
    (monitor.machine.halted = false →
      (∀ count, ∃ items ended,
        (monitor.perform sink (.steps count)).answer = .stepped items ended ∧
        items.map Stepped.result = (Command.steps count).results monitor.machine ∧
        (∀ index < count, (items.map Stepped.result)[index]? = yielded? monitor.machine index) ∧
        (ended = true ↔ ∃ index < count, yielded? monitor.machine index = none)) ∧
      (∀ index, yielded? monitor.machine index ≠ none → ∀ earlier < index, ∃ opcode,
        opcode ≠ .hlt ∧ yielded? monitor.machine earlier = some (.ok opcode)) ∧
      (∀ index, yielded? monitor.machine index = none ↔ ∃ earlier < index, ∃ result,
        yielded? monitor.machine earlier = some result ∧
          (result = .ok .hlt ∨ ∃ fault, result = .error fault)) ∧
      (∀ index, yielded? monitor.machine index = none → ∀ later, index ≤ later →
        yielded? monitor.machine later = none)) ∧
    (∀ limit fault, (monitor.perform sink (.run limit)).answer = .fault fault ↔
      ((Command.run limit).results monitor.machine).getLast? = some (.error fault)) ∧
    (∀ traced unprinted outlet limit,
      let session : Session := ⟨monitor.machine, traced, unprinted⟩
      Entry.Tells (session.remaining outlet limit).1
        ((Command.run limit).results monitor.machine)
        ((Command.run limit).events monitor.machine) ∧
      (∀ fault, (session.remaining outlet limit).2 = some (.faulted fault) ↔
        (monitor.perform sink (.run limit)).answer = .fault fault) ∧
      ((∃ ending, (session.remaining outlet (limit + 1)).2 = some ending ∧ ending.closes = true) ↔
        (monitor.perform sink (.run limit)).answer = .done)) := by
  refine ⟨fun commands => performAll_of_drives sink monitor, ?_, answer_run_fault sink monitor, ?_⟩
  · intro running
    refine ⟨answer_steps sink monitor, ?_, ?_, ?_⟩
    · intro index more earlier bound
      exact yielded?_earlier more bound
    · intro index
      exact yielded?_eq_none_iff running
    · intro index exhausted later within
      exact yielded?_later exhausted within
  · intro traced unprinted outlet limit session
    exact session.remaining_is_run outlet limit sink rfl

/-- A machine about to print a register and then to execute a byte that is no opcode. -/
def failing : Monitor (Array UInt8) :=
  (Monitor.fresh #[]).performAll .collect [.load [0x47, 0x00, 0xff]]

/-- The same attempts are made by an iterator that is abandoned and by a run that takes over, by
single steps, and by a traced session whose value cannot be printed. -/
theorem drivers_agree_failing :
    failing.performAll .collect [.steps 1, .run 4, .step] =
      failing.performAll .collect [.step, .step] ∧
    (∃ opcode, opcode ≠ .hlt ∧ yielded? failing.machine 0 = some (.ok opcode)) ∧
    yielded? failing.machine 5 = none ∧
    (failing.perform .collect (.run 4)).answer = .fault (.illegalInstruction 0xff 2) ∧
    ((Session.mk failing.machine true none).remaining (.failing "closed") 4).2 =
      some (.faulted (.illegalInstruction 0xff 2)) := by
  obtain ⟨driven, iterated, ran, attended⟩ := drivers_agree .collect failing
  obtain ⟨-, goesOn, -, stays⟩ := iterated (by decide +kernel)
  obtain ⟨-, same, -⟩ := driven [.steps 1, .run 4, .step] (by decide)
  have attempts : (gather Command.results failing.machine
      [.steps 1, .run 4, .step]).length = 2 := by decide +kernel
  have fault : (failing.perform .collect (.run 4)).answer =
      .fault (.illegalInstruction 0xff 2) := (ran 4 _).mpr (by decide +kernel)
  rw [attempts] at same
  exact ⟨same, goesOn 1 (by decide +kernel) 0 Nat.one_pos,
    stays 2 (by decide +kernel) 5 (by decide), fault, ((attended _ _ _ 4).2.1 _).mpr fault⟩

end LS8.Console
