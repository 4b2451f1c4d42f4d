import LS8.Proofs.Machine.Halting
import LS8.Proofs.Monitor.Performing

/-! Commands in sequence. What is seen of commands that are performed one after the other is put
together from what is seen of each, from where the ones before it left the machine. So are the
steps they make and the events that come of them, whatever becomes of the values printed. -/
namespace LS8.Monitor

/-- What is seen of some commands, performed one after the other. -/
def gather (view : Machine → Command → List α) : Machine → List Command → List α
  | _, [] => []
  | machine, command :: rest => view machine command ++ gather view (command.apply machine) rest

@[simp] theorem gather_nil (view : Machine → Command → List α) (machine : Machine) :
    gather view machine [] = [] := rfl

theorem gather_cons (view : Machine → Command → List α) (machine : Machine) (command : Command)
    (rest : List Command) : gather view machine (command :: rest) =
      view machine command ++ gather view (command.apply machine) rest := rfl

/-- What is made of each thing seen is made of all that is gathered. -/
theorem gather_flatMap {fine : Machine → Command → List α} {coarse : Machine → Command → List β}
    {make : α → List β} {commands : List Command}
    (made : ∀ machine, ∀ command ∈ commands,
      coarse machine command = (fine machine command).flatMap make) (machine : Machine) :
    gather coarse machine commands = (gather fine machine commands).flatMap make := by
  induction commands generalizing machine with
  | nil => rfl
  | cons command rest ih =>
    have later := ih fun machine command member =>
      made machine command (List.mem_cons_of_mem _ member)
    rw [gather_cons, gather_cons, List.flatMap_append, made machine command List.mem_cons_self,
      later]

namespace Command

/-- The steps that a command makes at most. -/
def limit : Command → Nat
  | step => 1
  | run limit | steps limit => limit
  | load _ | source _ | register _ | read _ | write _ _ | trace | flags => 0

/-- The machines on which a command makes its steps. -/
def stepped (machine : Machine) (command : Command) : List Machine := machine.stepped command.limit

/-- A command makes its steps, and apart from them changes nothing but memory. -/
theorem apply_eq_after (machine : Machine) (command : Command) :
    ∃ memory, command.apply machine = { machine.after command.limit with memory } := by
  have loaded (program : List UInt8) :
      ∃ memory, (machine.load program).machine = { machine with memory } := by
    unfold Machine.load
    split
    · exact ⟨_, rfl⟩
    · exact ⟨machine.memory, rfl⟩
  cases command
  case load program => exact loaded program
  case source text =>
    simp only [apply]
    split
    · exact loaded _
    · exact ⟨machine.memory, rfl⟩
  case step =>
    refine ⟨machine.step.machine.memory, ?_⟩
    rw [limit, Machine.after_succ]
    rfl
  case run limit | steps limit => exact ⟨(machine.after limit).memory, rfl⟩
  case write address value => exact ⟨machine.memory.write address value, rfl⟩
  case register | read | trace | flags => exact ⟨machine.memory, rfl⟩

/-- The events that come of a command. -/
def events (machine : Machine) : Command → List Event
  | load program => (machine.load program).events
  | source text =>
    match (Assembly.assemble text).result with
    | .ok program => (machine.load program).events
    | .error _ => []
  | step => machine.step.events
  | run limit | steps limit => (machine.stepped limit).flatMap fun before => before.step.events
  | register _ | read _ | write _ _ | trace | flags => []

end Command

/-- Steps are made on running machines only. -/
theorem running_of_mem_gather {machine before : Machine} {commands : List Command}
    (member : before ∈ gather Command.stepped machine commands) : before.halted = false := by
  induction commands generalizing machine with
  | nil => exact absurd member List.not_mem_nil
  | cons command rest ih =>
    rcases List.mem_append.mp member with first | later
    · obtain ⟨-, -, -, running⟩ := Machine.mem_stepped_iff.mp first
      exact running
    · exact ih later

theorem flatMap_attempts (limit : Nat) (machine : Machine) :
    (machine.attempts limit).flatMap (fun made => made.2.events) =
      (machine.stepped limit).flatMap fun before => before.step.events := by
  rw [Machine.attempts_eq, List.flatMap_map]

theorem events_perform (monitor : Monitor σ) (sink : Sink σ) (command : Command) :
    (monitor.perform sink command).events = command.events monitor.machine := by
  cases command
  case source text =>
    simp only [perform, source, Command.events]
    cases (Assembly.assemble text).result <;> rfl
  case run limit =>
    have once (history : History) (made : Machine × Attempt Opcode) :
        (history.record made.2).events.toList = history.events.toList ++ made.2.events := by
      simp [History.record]
    simp only [perform, Monitor.run, Machine.run, Machine.drive_eq]
    exact (told_foldl (fun history : History => history.events.toList) once _ _).trans
      (flatMap_attempts limit monitor.machine)
  case steps count =>
    have once (watched : Watched) (made : Machine × Attempt Opcode) :
        (watched.record ⟨made.1.snapshot, made.2.result⟩ made.2.events).events.toList =
          watched.events.toList ++ made.2.events := by
      simp [Watched.record]
    simp only [perform, Monitor.steps, watch, Machine.drive_eq]
    exact (told_foldl (fun watched : Watched => watched.events.toList) once _ _).trans
      (flatMap_attempts count monitor.machine)
  all_goals rfl

/-- The sink is handed what is printed, and nothing else. -/
theorem output_perform (monitor : Monitor σ) (sink : Sink σ) (command : Command) :
    (monitor.perform sink command).monitor.output =
      sink.acceptAll monitor.output (printedIn (command.events monitor.machine)) := by
  rw [← events_perform monitor sink command]
  cases command
  case source text =>
    simp only [perform, source]
    cases (Assembly.assemble text).result <;> rfl
  all_goals rfl

/-- The replies to some commands, performed one after the other. -/
def replies (monitor : Monitor σ) (sink : Sink σ) : List Command → List (Reply σ)
  | [] => []
  | command :: rest =>
    let reply := monitor.perform sink command
    reply :: replies reply.monitor sink rest

theorem flatMap_events_replies (monitor : Monitor σ) (sink : Sink σ) (commands : List Command) :
    (monitor.replies sink commands).flatMap Reply.events =
      gather Command.events monitor.machine commands := by
  induction commands generalizing monitor with
  | nil => rfl
  | cons command rest ih =>
    rw [replies, List.flatMap_cons, ih, events_perform, machine_perform, gather_cons]

theorem monitor_perform (monitor : Monitor σ) (sink : Sink σ) (command : Command) :
    (monitor.perform sink command).monitor = ⟨command.apply monitor.machine,
      sink.acceptAll monitor.output (printedIn (command.events monitor.machine))⟩ := by
  rw [← machine_perform monitor sink command, ← output_perform monitor sink command]

theorem performAll_cons (monitor : Monitor σ) (sink : Sink σ) (command : Command)
    (rest : List Command) : monitor.performAll sink (command :: rest) =
      (monitor.perform sink command).monitor.performAll sink rest := rfl

theorem performAll_eq (monitor : Monitor σ) (sink : Sink σ) (commands : List Command) :
    monitor.performAll sink commands = ⟨commands.foldl Command.apply monitor.machine,
      sink.acceptAll monitor.output
        (printedIn (gather Command.events monitor.machine commands))⟩ := by
  induction commands generalizing monitor with
  | nil => rfl
  | cons command rest ih =>
    rw [performAll_cons, ih, monitor_perform, gather_cons, printedIn_append,
      Sink.acceptAll_append, List.foldl_cons]

end LS8.Monitor
