import LS8.Monitor.Command
import LS8.Proofs.Machine.Loading
import LS8.Proofs.Machine.Running

/-! What commands do to the machine, whatever becomes of the values printed, and which faults
their answers report. Running and stepping on are as many steps as are made, and each fault
that is reported is one of a step or of a program too large to be loaded. -/
namespace LS8.Monitor

/-- The machine that a command leaves. -/
def Command.apply (machine : Machine) : Command → Machine
  | load program => (machine.load program).machine
  | source text =>
    match (Assembly.assemble text).result with
    | .ok program => (machine.load program).machine
    | .error _ => machine
  | step => machine.step.machine
  | run limit => machine.after limit
  | steps count => machine.after count
  | write address value => machine.store address value
  | register _ | read _ | trace | flags => machine

theorem machine_perform (monitor : Monitor σ) (sink : Sink σ) (command : Command) :
    (monitor.perform sink command).monitor.machine = command.apply monitor.machine := by
  cases command
  case source text =>
    simp only [perform, source, Command.apply]
    cases (Assembly.assemble text).result <;> rfl
  case run limit =>
    simp only [perform, Monitor.run, settle, Machine.run, Machine.drive_eq]
    rfl
  case steps count =>
    simp only [perform, Monitor.steps, settle, watch, Machine.drive_eq]
    rfl
  all_goals rfl

/-- The monitor after some commands, one performed after the other. -/
def performAll (monitor : Monitor σ) (sink : Sink σ) (commands : List Command) : Monitor σ :=
  commands.foldl (fun monitor command => (monitor.perform sink command).monitor) monitor

theorem machine_performAll (monitor : Monitor σ) (sink : Sink σ) (commands : List Command) :
    (monitor.performAll sink commands).machine =
      commands.foldl Command.apply monitor.machine := by
  induction commands generalizing monitor with
  | nil => rfl
  | cons command rest ih =>
    rw [List.foldl_cons, ← machine_perform monitor sink command]
    exact ih (monitor.perform sink command).monitor

/-- The faults of steps and loads that an answer reports. -/
def Answer.faults : Answer → List Fault
  | .fault cause => [cause]
  | .stepped steps _ => steps.filterMap fun stepped =>
    match stepped.result with
    | .ok _ => none
    | .error cause => some cause
  | .done | .executed _ | .value _ | .snapshot _ | .flags _ | .noRegister _ | .refused _
  | .unfinished => []

/-- A run reports the fault of its last step, if that is how it ended. -/
theorem fault_run_iff {machine : Machine} {limit : Nat} {fault : Fault} :
    (machine.run limit).2.fault? = some fault ↔
      ∃ last, (machine.stepped limit).getLast? = some last ∧
        last.step.result = .error fault := by
  rw [Machine.run, Machine.drive_eq, Machine.attempts_eq, List.foldl_map]
  rcases List.eq_nil_or_concat (machine.stepped limit) with none | ⟨front, last, made⟩
  · simp [none, History.empty]
  · rw [List.concat_eq_append] at made
    rw [made, List.foldl_append, List.foldl_cons, List.foldl_nil, List.getLast?_concat]
    have told : (∃ step, some last = some step ∧ step.step.result = .error fault) ↔
        last.step.result = .error fault := by simp
    rw [told, History.record]
    cases last.step.result <;> simp

/-- What an observer adds to its account attempt by attempt is in the account in the end. -/
theorem told_foldl (told : α → List γ) {observe : α → β → α} {adds : β → List γ}
    (once : ∀ seen attempt, told (observe seen attempt) = told seen ++ adds attempt)
    (attempts : List β) (seen : α) :
    told (attempts.foldl observe seen) = told seen ++ attempts.flatMap adds := by
  induction attempts generalizing seen with
  | nil => simp
  | cons attempt rest ih => rw [List.foldl_cons, ih, once, List.append_assoc, List.flatMap_cons]

/-- The steps handed out are those made, each with a snapshot from before it. -/
theorem steps_watch (count : Nat) (machine : Machine) :
    (watch count machine).2.steps.toList =
      (machine.stepped count).map fun before => ⟨before.snapshot, before.step.result⟩ := by
  have once (watched : Watched) (made : Machine × Attempt Opcode) :
      (watched.record ⟨made.1.snapshot, made.2.result⟩ made.2.events).steps.toList =
        watched.steps.toList ++ [⟨made.1.snapshot, made.2.result⟩] := by
    simp [Watched.record]
  rw [watch, Machine.drive_eq]
  refine (told_foldl (fun watched : Watched => watched.steps.toList) once _ _).trans ?_
  rw [Machine.attempts_eq, List.flatMap_map, List.map_eq_flatMap]
  rfl

theorem fault_load {machine : Machine} {program : List UInt8} {fault : Fault}
    (refused : (machine.load program).result = .error fault) :
    fault = .addressing (.programTooLarge program.length) := by
  rcases Nat.lt_or_ge 256 program.length with large | fits
  · rw [machine.load_of_lt large] at refused
    exact (Except.error.inj refused).symm
  · obtain ⟨memory, loaded, -⟩ := machine.load_of_le fits
    rw [loaded] at refused
    contradiction

theorem faults_load {monitor : Monitor σ} {sink : Sink σ} {program : List UInt8}
    {notices : List Assembly.Notice} {fault : Fault}
    (reported : fault ∈ (monitor.load sink program notices).answer.faults) :
    fault = .addressing (.programTooLarge program.length) := by
  simp only [load] at reported
  split at reported
  · cases reported
  · rename_i refused
    obtain rfl := List.mem_singleton.mp reported
    exact fault_load refused

/-- Each fault reported is one of a step made from where the machine stood. -/
theorem faults_perform {monitor : Monitor σ} {sink : Sink σ} {command : Command} {fault : Fault}
    (reported : fault ∈ (monitor.perform sink command).answer.faults) :
    (∃ size, fault = .addressing (.programTooLarge size)) ∨
    ∃ index, (monitor.machine.after index).step.result = .error fault := by
  have made {limit : Nat} (failed : ∃ before ∈ monitor.machine.stepped limit,
      before.step.result = .error fault) :
      ∃ index, (monitor.machine.after index).step.result = .error fault := by
    obtain ⟨before, member, failed⟩ := failed
    obtain ⟨index, -, rfl, -⟩ := Machine.mem_stepped_iff.mp member
    exact ⟨index, failed⟩
  cases command
  case load program => exact .inl ⟨program.length, faults_load reported⟩
  case source text =>
    simp only [perform, source] at reported
    split at reported
    · exact .inl ⟨_, faults_load reported⟩
    · cases reported
  case step =>
    simp only [perform, Monitor.step] at reported
    split at reported
    · cases reported
    · rename_i failed
      obtain rfl := List.mem_singleton.mp reported
      exact .inr ⟨0, failed⟩
  case run limit =>
    simp only [perform, Monitor.run] at reported
    split at reported
    · rename_i failed
      obtain rfl := List.mem_singleton.mp reported
      obtain ⟨last, found, faulted⟩ := fault_run_iff.mp failed
      exact .inr (made ⟨last, List.mem_of_getLast? found, faulted⟩)
    · split at reported <;> cases reported
  case steps count =>
    simp only [perform, Monitor.steps, Answer.faults, steps_watch] at reported
    obtain ⟨stepped, member, failed⟩ := List.mem_filterMap.mp reported
    obtain ⟨before, within, rfl⟩ := List.mem_map.mp member
    refine .inr (made ⟨before, within, ?_⟩)
    dsimp only at failed
    split at failed
    · contradiction
    · rename_i result
      rw [result, Option.some.inj failed]
  case register index =>
    simp only [perform, look] at reported
    split at reported <;> cases reported
  all_goals cases reported

end LS8.Monitor
