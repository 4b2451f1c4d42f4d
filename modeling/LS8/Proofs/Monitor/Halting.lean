import LS8.Proofs.Assembly.Executing
import LS8.Proofs.Monitor.Sequence

/-! Halting under all commands. A machine halts in a step and never runs again; what can still be
done to it is to put bytes into its memory. Putting bytes into memory, in turn, halts no machine
and sets none going, and a program that is refused leaves no trace. -/
namespace LS8.Monitor

namespace Command

/-- Commands that put bytes into memory. -/
def stores : Command → Bool
  | load _ | source _ | write _ _ => true
  | step | run _ | steps _ | register _ | read _ | trace | flags => false

theorem apply_load (machine : Machine) (program : List UInt8) :
    ∃ memory, (machine.load program).machine = { machine with memory } ∧
      printedIn (machine.load program).events = [] := by
  rcases Nat.lt_or_ge 256 program.length with large | fits
  · rw [machine.load_of_lt large]
    exact ⟨machine.memory, rfl, rfl⟩
  · obtain ⟨memory, loaded, -⟩ := machine.load_of_le fits
    rw [loaded]
    exact ⟨memory, rfl, rfl⟩

/-- Bytes are put into memory without anything else being done or printed. -/
theorem apply_of_stores {command : Command} (storing : command.stores = true) (machine : Machine) :
    ∃ memory, command.apply machine = { machine with memory } ∧
      printedIn (command.events machine) = [] := by
  cases command
  case load program => exact apply_load machine program
  case source text =>
    simp only [apply, events]
    cases (Assembly.assemble text).result with
    | ok program => exact apply_load machine program
    | error diagnostic => exact ⟨machine.memory, rfl, rfl⟩
  case write address value => exact ⟨machine.memory.write address value, rfl, rfl⟩
  all_goals cases storing

/-- A halted machine is left alone by all commands that do not put bytes into memory. -/
theorem apply_of_halted {command : Command} {machine : Machine} (halted : machine.halted = true)
    (keeping : command.stores = false) :
    command.apply machine = machine ∧ command.events machine = [] := by
  cases command
  case step => simp only [apply, events, Machine.step_halted halted, and_self]
  case run limit | steps limit =>
    simp only [apply, events, Machine.after_halted halted, Machine.stepped_halted halted,
      List.flatMap_nil, and_self]
  case register | read | trace | flags => exact ⟨rfl, rfl⟩
  all_goals cases keeping

theorem halted_apply_iff {command : Command} {machine : Machine} :
    (command.apply machine).halted = true ↔
      machine.halted = true ∨ ∃ before ∈ command.stepped machine, Stops before.step.result := by
  obtain ⟨memory, same⟩ := command.apply_eq_after machine
  rw [same]
  exact Machine.halted_after_iff

end Command

/-- A machine has halted after some commands if it had before, or if one of their steps halted
it. -/
theorem halted_foldl_apply_iff {machine : Machine} {commands : List Command} :
    (commands.foldl Command.apply machine).halted = true ↔ machine.halted = true ∨
      ∃ before ∈ gather Command.stepped machine commands, Stops before.step.result := by
  induction commands generalizing machine with
  | nil => simp
  | cons command rest ih =>
    rw [List.foldl_cons, ih, Command.halted_apply_iff, gather_cons]
    simp only [List.mem_append, or_and_right, exists_or, or_assoc]

/-- Of the commands to a halted machine, those that put bytes into memory are the only ones of
consequence, and memory is all that they change. -/
theorem performAll_of_halted (sink : Sink σ) {monitor : Monitor σ}
    (halted : monitor.machine.halted = true) (commands : List Command) :
    monitor.performAll sink commands = monitor.performAll sink (commands.filter Command.stores) ∧
    ∃ memory, monitor.performAll sink commands =
      { monitor with machine := { monitor.machine with memory } } := by
  induction commands generalizing monitor with
  | nil => exact ⟨rfl, monitor.machine.memory, rfl⟩
  | cons command rest ih =>
    rw [performAll_cons, monitor_perform, List.filter_cons]
    cases storing : command.stores with
    | true =>
      obtain ⟨memory, same, quiet⟩ := Command.apply_of_stores storing monitor.machine
      rw [if_pos rfl, performAll_cons, monitor_perform, same, quiet]
      have still : Machine.halted { monitor.machine with memory } = true := halted
      exact ih still
    | false =>
      obtain ⟨same, quiet⟩ := Command.apply_of_halted halted storing
      rw [same, quiet]
      exact ih halted

/-- What is left of running a halted machine. -/
theorem drives_of_halted (sink : Sink σ) {monitor : Monitor σ}
    (halted : monitor.machine.halted = true) :
    monitor.perform sink .step = ⟨monitor, .fault .halted, [], []⟩ ∧
    (∀ limit, monitor.perform sink (.run limit) = ⟨monitor, .done, [], []⟩) ∧
    (∀ count, monitor.perform sink (.steps count) =
      ⟨monitor, .stepped [] (decide (0 < count)), [], []⟩) := by
  refine ⟨?_, ?_, ?_⟩
  · simp only [perform, step, Machine.step_halted halted]
    rfl
  · intro limit
    simp only [perform, run, Machine.run, Machine.drive_eq, Machine.after_halted halted,
      Machine.attempts_halted halted, List.foldl_nil, History.empty, halted, if_true]
    rfl
  · intro count
    simp only [perform, steps, watch, Machine.drive_eq, Machine.after_halted halted,
      Machine.attempts_halted halted, List.foldl_nil]
    rfl

/-- A program that fits is loaded whole, one that does not is not loaded at all. -/
theorem load_cases (sink : Sink σ) (monitor : Monitor σ) (program : List UInt8)
    (notices : List Assembly.Notice) :
    (program.length ≤ 256 → ∃ memory, monitor.load sink program notices =
        ⟨{ monitor with machine := { monitor.machine with memory } }, .done, notices,
          [.loaded program.length]⟩ ∧
        Memory.Overlaid program monitor.machine.memory memory) ∧
    (256 < program.length → monitor.load sink program notices =
      ⟨monitor, .fault (.addressing (.programTooLarge program.length)), notices, []⟩) := by
  constructor
  · intro fits
    obtain ⟨memory, loaded, cells⟩ := monitor.machine.load_of_le fits
    refine ⟨memory, ?_, cells⟩
    simp only [load, loaded]
    rfl
  · intro large
    simp only [load, monitor.machine.load_of_lt large]
    rfl

/-- A machine halts only by executing HLT or by faulting, and for good: from then on commands that
put bytes into memory change it there, and no others change anything. Loading a program writes its
bytes to the first cells and does nothing else; what is not loaded, because it does not fit or
cannot be assembled, does nothing at all. -/
theorem halting_is_final (sink : Sink σ) (monitor : Monitor σ) :
    (monitor.machine.halted = false → ∀ commands,
      ((monitor.performAll sink commands).machine.halted = true ↔
        ∃ before ∈ gather Command.stepped monitor.machine commands,
          before.halted = false ∧ before.step.machine.halted = true ∧
          (before.step.result = .ok .hlt ∨ ∃ fault, before.step.result = .error fault))) ∧
    (monitor.machine.halted = true → ∀ commands,
      monitor.performAll sink commands = monitor.performAll sink (commands.filter Command.stores) ∧
      ∃ memory, monitor.performAll sink commands =
        { monitor with machine := { monitor.machine with memory } }) ∧
    (monitor.machine.halted = true →
      monitor.perform sink .step = ⟨monitor, .fault .halted, [], []⟩ ∧
      (∀ limit, monitor.perform sink (.run limit) = ⟨monitor, .done, [], []⟩) ∧
      (∀ count, monitor.perform sink (.steps count) =
        ⟨monitor, .stepped [] (decide (0 < count)), [], []⟩)) ∧
    (∀ program,
      (program.length ≤ 256 → ∃ memory, monitor.perform sink (.load program) =
          ⟨{ monitor with machine := { monitor.machine with memory } }, .done, [],
            [.loaded program.length]⟩ ∧
          Memory.Overlaid program monitor.machine.memory memory) ∧
      (256 < program.length → monitor.perform sink (.load program) =
        ⟨monitor, .fault (.addressing (.programTooLarge program.length)), [], []⟩)) ∧
    (∀ text,
      (∀ program, (Assembly.assemble text).result = .ok program →
        ∃ memory, monitor.perform sink (.source text) =
          ⟨{ monitor with machine := { monitor.machine with memory } }, .done,
            (Assembly.assemble text).notices, [.loaded program.length]⟩ ∧
          Memory.Overlaid program monitor.machine.memory memory) ∧
      (∀ diagnostic, (Assembly.assemble text).result = .error diagnostic →
        monitor.perform sink (.source text) =
          ⟨monitor, .refused diagnostic, (Assembly.assemble text).notices, []⟩)) := by
  refine ⟨?_, fun halted => performAll_of_halted sink halted,
    fun halted => drives_of_halted sink halted, ?_, ?_⟩
  · intro running commands
    rw [machine_performAll, halted_foldl_apply_iff, running]
    constructor
    · rintro (halted | ⟨before, member, stops⟩)
      · cases halted
      · have live := running_of_mem_gather member
        exact ⟨before, member, live, (Machine.halted_step_iff live).mpr stops, stops⟩
    · rintro ⟨before, member, -, -, stops⟩
      exact .inr ⟨before, member, stops⟩
  · intro program
    exact load_cases sink monitor program []
  · intro text
    refine ⟨?_, ?_⟩
    · intro program assembled
      have fits := Assembly.length_le_of_assembled assembled
      simp only [perform, source, assembled]
      exact (load_cases sink monitor program _).1 fits
    · intro diagnostic refused
      simp only [perform, source, refused]

/-- A program that halts at once, and a step to execute it. -/
def stopping : List Command := [.write 0 0x01, .step]

theorem halting_is_final_stopping :
    let stopped := (fresh ()).performAll .discard stopping
    (∃ before ∈ gather Command.stepped .fresh stopping, before.halted = false ∧
      before.step.machine.halted = true) ∧
    stopped.perform .discard .step = ⟨stopped, .fault .halted, [], []⟩ ∧
    stopped.performAll .discard [.step, .load [0x45], .run 2] =
      stopped.performAll .discard [.load [0x45]] ∧
    (stopped.perform .discard (.load [0x45])).answer = .done := by
  intro stopped
  have halted : stopped.machine.halted = true := by decide +kernel
  obtain ⟨only, -⟩ := halting_is_final .discard (fresh ())
  obtain ⟨-, final, left, loads, -⟩ := halting_is_final .discard stopped
  obtain ⟨before, member, running, halts, -⟩ := (only rfl stopping).mp halted
  obtain ⟨refused, -⟩ := left halted
  obtain ⟨contained, -⟩ := final halted [.step, .load [0x45], .run 2]
  obtain ⟨memory, loaded, -⟩ := (loads [0x45]).1 (by decide)
  refine ⟨⟨before, member, running, halts⟩, refused, contained, ?_⟩
  rw [loaded]

end LS8.Monitor
