import LS8.Proofs.Monitor.Sequence

/-! Ways of driving a machine. A machine can be asked for one step, for steps one after another as
long as there are any, or to run to its end. Whichever is asked for, in whatever order and however
often, the attempts made are those of asking for single steps. -/
namespace LS8.Monitor

namespace Command

/-- Commands that make the machine go on. -/
def drives : Command → Bool
  | step | run _ | steps _ => true
  | load _ | source _ | register _ | read _ | write _ _ | trace | flags => false

/-- What becomes of each attempt that a command makes, as its own loop sees it. To be refused a step
because the machine has halted is no attempt. -/
def results (machine : Machine) : Command → List (Except Fault Opcode)
  | step => if machine.halted then [] else [machine.step.result]
  | run limit => (machine.drive (fun seen _ attempt => seen ++ [attempt.result]) limit []).2
  | steps count => (watch count machine).2.steps.toList.map Stepped.result
  | load _ | source _ | register _ | read _ | write _ _ | trace | flags => []

theorem results_eq (machine : Machine) (command : Command) :
    command.results machine = (command.stepped machine).map fun before => before.step.result := by
  cases command
  case step =>
    cases halted : machine.halted with
    | true => simp [results, stepped, halted]
    | false =>
      rw [stepped, limit, Machine.stepped_running halted]
      simp only [results, halted]
      rfl
  case run limit =>
    have once (seen : List (Except Fault Opcode)) (made : Machine × Attempt Opcode) :
        seen ++ [made.2.result] = seen ++ [made.2.result] := rfl
    simp only [results, Machine.drive_eq]
    refine (told_foldl id once _ _).trans ?_
    rw [Machine.attempts_eq, List.flatMap_map, stepped, List.map_eq_flatMap]
    rfl
  case steps count =>
    rw [results, steps_watch, List.map_map]
    rfl
  all_goals rfl

theorem apply_of_drives {command : Command} (driving : command.drives = true) (machine : Machine) :
    command.apply machine = machine.after command.limit := by
  cases command
  case step => exact (Machine.after_succ 0 machine).symm
  case run limit | steps limit => rfl
  all_goals cases driving

theorem events_of_drives {command : Command} (driving : command.drives = true) (machine : Machine) :
    command.events machine =
      (command.stepped machine).flatMap fun before => before.step.events := by
  cases command
  case step =>
    cases halted : machine.halted with
    | true => simp [events, stepped, halted]
    | false =>
      rw [stepped, limit, Machine.stepped_running halted]
      exact (List.append_nil _).symm
  case run limit | steps limit => rfl
  all_goals cases driving

end Command

theorem gather_results (machine : Machine) (commands : List Command) :
    gather Command.results machine commands =
      (gather Command.stepped machine commands).map fun before => before.step.result := by
  rw [List.map_eq_flatMap]
  apply gather_flatMap
  intro machine command _
  rw [Command.results_eq, List.map_eq_flatMap]

/-- The steps that some commands make at most, all of them together. -/
def allowance : List Command → Nat
  | [] => 0
  | command :: rest => command.limit + allowance rest

section Driven

variable {commands : List Command} (driving : ∀ command ∈ commands, command.drives = true)
  (machine : Machine)
include driving

/-- Commands that make the machine go on are one run, as long as all of them together. -/
theorem foldl_apply_of_drives :
    commands.foldl Command.apply machine = machine.after (allowance commands) ∧
      gather Command.stepped machine commands = machine.stepped (allowance commands) := by
  induction commands generalizing machine with
  | nil => exact ⟨rfl, rfl⟩
  | cons command rest ih =>
    have reached := Command.apply_of_drives (driving command List.mem_cons_self) machine
    obtain ⟨later, moreMade⟩ := ih (fun command member =>
      driving command (List.mem_cons_of_mem _ member)) (machine.after command.limit)
    rw [allowance, Machine.after_add, Machine.stepped_add, List.foldl_cons, gather_cons, reached,
      later, moreMade]
    exact ⟨rfl, rfl⟩

theorem gather_events_of_drives : gather Command.events machine commands =
    (gather Command.stepped machine commands).flatMap fun before => before.step.events :=
  gather_flatMap (fun machine command member =>
    Command.events_of_drives (driving command member) machine) machine

end Driven

/-- The records of commands that make the machine go on are those of the events. -/
theorem records_replies_of_drives (sink : Sink σ) (monitor : Monitor σ) {commands : List Command}
    (driving : ∀ command ∈ commands, command.drives = true) :
    (monitor.replies sink commands).flatMap Reply.records =
      ((monitor.replies sink commands).flatMap Reply.events).filterMap Log.ofEvent? := by
  induction commands generalizing monitor with
  | nil => rfl
  | cons command rest ih =>
    have unnoted : (monitor.perform sink command).notices = [] := by
      have drives := driving command List.mem_cons_self
      cases command <;> first | rfl | cases drives
    have records : (monitor.perform sink command).records =
        (monitor.perform sink command).events.filterMap Log.ofEvent? := by
      rw [Reply.records, unnoted]
      rfl
    have later := ih (monitor.perform sink command).monitor fun command member =>
      driving command (List.mem_cons_of_mem _ member)
    rw [replies, List.flatMap_cons, List.flatMap_cons, List.filterMap_append, records, later]

theorem drives_singly (count : Nat) :
    ∀ command ∈ List.replicate count Command.step, command.drives = true := by
  intro command member
  rw [List.eq_of_mem_replicate member]
  rfl

theorem foldl_apply_singly (count : Nat) (machine : Machine) :
    (List.replicate count Command.step).foldl Command.apply machine = machine.after count ∧
      gather Command.stepped machine (List.replicate count .step) = machine.stepped count := by
  have allowed : allowance (List.replicate count .step) = count := by
    induction count with
    | zero => rfl
    | succ count ih => rw [List.replicate_succ, allowance, ih, Command.limit, Nat.add_comm]
  have same := foldl_apply_of_drives (drives_singly count) machine
  rw [allowed] at same
  exact same

/-- Whatever makes the machine go on, however often and in whatever order, does what as many single
steps do as there are attempts, and each of those is made on a running machine. -/
theorem performAll_of_drives (sink : Sink σ) (monitor : Monitor σ) {commands : List Command}
    (driving : ∀ command ∈ commands, command.drives = true) :
    let total := (gather Command.results monitor.machine commands).length
    let singly := List.replicate total Command.step
    (∀ count < total,
      (monitor.performAll sink (.replicate count .step)).machine.halted = false) ∧
    monitor.performAll sink commands = monitor.performAll sink singly ∧
    gather Command.results monitor.machine commands =
      gather Command.results monitor.machine singly ∧
    (monitor.replies sink commands).flatMap Reply.events =
      (monitor.replies sink singly).flatMap Reply.events ∧
    (monitor.replies sink commands).flatMap Reply.records =
      (monitor.replies sink singly).flatMap Reply.records := by
  intro total singly
  obtain ⟨reached, made⟩ := foldl_apply_of_drives driving monitor.machine
  obtain ⟨singlyReached, singlyMade⟩ := foldl_apply_singly total monitor.machine
  obtain ⟨sameReached, sameMade⟩ :=
    Machine.after_length_stepped (allowance commands) monitor.machine
  -- the commands may allow for more steps than they make, so the attempts are counted and not those
  have counted : (monitor.machine.stepped (allowance commands)).length = total := by
    rw [← made, ← List.length_map, ← gather_results]
  rw [counted] at sameReached sameMade
  have attempts := made.trans (sameMade.symm.trans singlyMade.symm)
  have events : gather Command.events monitor.machine commands =
      gather Command.events monitor.machine singly := by
    rw [gather_events_of_drives driving, gather_events_of_drives (drives_singly total), attempts]
  have told : (monitor.replies sink commands).flatMap Reply.events =
      (monitor.replies sink singly).flatMap Reply.events := by
    rw [flatMap_events_replies, flatMap_events_replies, events]
  refine ⟨?_, ?_, ?_, told, ?_⟩
  · intro count bound
    rw [machine_performAll, (foldl_apply_singly count monitor.machine).1]
    rw [← counted] at bound
    exact Machine.running_of_lt_length bound
  · rw [performAll_eq, performAll_eq, reached, singlyReached, sameReached, events]
  · rw [gather_results, gather_results, attempts]
  · rw [records_replies_of_drives sink monitor driving,
      records_replies_of_drives sink monitor (drives_singly total), told]

/-- What a call of an iterator yields if there were so many before. -/
def yielded? (machine : Machine) (index : Nat) : Option (Except Fault Opcode) :=
  ((Command.steps (index + 1)).results machine)[index]?

section Yielded

variable {machine : Machine} {index : Nat}

theorem getElem?_results_eq_some {count : Nat} {result : Except Fault Opcode} :
    ((Command.steps count).results machine)[index]? = some result ↔ index < count ∧
      (machine.after index).halted = false ∧ (machine.after index).step.result = result := by
  rw [Command.results_eq, Command.stepped, List.getElem?_map, Option.map_eq_some_iff]
  simp only [Machine.getElem?_stepped_eq_some]
  constructor
  · rintro ⟨before, ⟨bound, rfl, running⟩, same⟩
    exact ⟨bound, running, same⟩
  · rintro ⟨bound, running, same⟩
    exact ⟨_, ⟨bound, rfl, running⟩, same⟩

theorem yielded?_eq_some {result : Except Fault Opcode} :
    yielded? machine index = some result ↔
      (machine.after index).halted = false ∧ (machine.after index).step.result = result := by
  rw [yielded?, getElem?_results_eq_some]
  exact and_iff_right (Nat.lt_succ_self index)

/-- It does not matter for a call how many are made after it. -/
theorem getElem?_results {count : Nat} (bound : index < count) :
    ((Command.steps count).results machine)[index]? = yielded? machine index := by
  ext result
  rw [getElem?_results_eq_some, yielded?_eq_some]
  exact and_iff_right bound

theorem yielded?_eq_none : yielded? machine index = none ↔ (machine.after index).halted = true := by
  rw [Option.eq_none_iff_forall_ne_some]
  simp only [ne_eq, yielded?_eq_some]
  cases (machine.after index).halted <;> simp

/-- Nothing more is yielded from the first attempt on that halted the machine. -/
theorem yielded?_eq_none_iff (running : machine.halted = false) :
    yielded? machine index = none ↔
      ∃ earlier < index, ∃ result, yielded? machine earlier = some result ∧ Stops result := by
  rw [yielded?_eq_none, Machine.halted_after_iff, running]
  simp only [Machine.mem_stepped_iff, yielded?_eq_some]
  constructor
  · rintro (halted | ⟨before, ⟨earlier, bound, rfl, live⟩, stops⟩)
    · cases halted
    · exact ⟨earlier, bound, _, ⟨live, rfl⟩, stops⟩
  · rintro ⟨earlier, bound, _, ⟨live, rfl⟩, stops⟩
    exact .inr ⟨_, ⟨earlier, bound, rfl, live⟩, stops⟩

theorem yielded?_earlier (more : yielded? machine index ≠ none) {earlier : Nat}
    (bound : earlier < index) :
    ∃ opcode, opcode ≠ .hlt ∧ yielded? machine earlier = some (.ok opcode) := by
  have running : (machine.after index).halted ≠ true := mt yielded?_eq_none.mpr more
  have live : (machine.after earlier).halted = false := Bool.eq_false_iff.mpr fun halted =>
    running (Machine.halted_after_mono (Nat.le_of_lt bound) halted)
  have member : machine.after earlier ∈ machine.stepped index :=
    Machine.mem_stepped_iff.mpr ⟨earlier, bound, rfl, live⟩
  obtain ⟨opcode, other, executed⟩ := not_stops_iff.mp fun stops =>
    running (Machine.halted_after_iff.mpr (.inr ⟨_, member, stops⟩))
  exact ⟨opcode, other, yielded?_eq_some.mpr ⟨live, executed⟩⟩

theorem yielded?_later (exhausted : yielded? machine index = none) {later : Nat}
    (within : index ≤ later) : yielded? machine later = none :=
  yielded?_eq_none.mpr (Machine.halted_after_mono within (yielded?_eq_none.mp exhausted))

/-- What is handed out in answer to a command is what the calls of an iterator yield. -/
theorem answer_steps (sink : Sink σ) (monitor : Monitor σ) (count : Nat) :
    ∃ items ended, (monitor.perform sink (.steps count)).answer = .stepped items ended ∧
      items.map Stepped.result = (Command.steps count).results monitor.machine ∧
      (∀ index < count, (items.map Stepped.result)[index]? = yielded? monitor.machine index) ∧
      (ended = true ↔ ∃ index < count, yielded? monitor.machine index = none) := by
  refine ⟨_, _, rfl, rfl, fun index bound => getElem?_results bound, ?_⟩
  have size : (watch count monitor.machine).2.steps.size =
      ((Command.steps count).results monitor.machine).length := by
    rw [Command.results, List.length_map, Array.length_toList]
  rw [size, decide_eq_true_iff]
  constructor
  · intro short
    refine ⟨_, short, ?_⟩
    rw [← getElem?_results short]
    exact List.getElem?_eq_none (Nat.le_refl _)
  · rintro ⟨index, bound, exhausted⟩
    rw [← getElem?_results bound, List.getElem?_eq_none_iff] at exhausted
    exact Nat.lt_of_le_of_lt exhausted bound

/-- An attempt that faults is the last one of its run. -/
theorem mem_results_iff_last {limit : Nat} {fault : Fault} :
    .error fault ∈ (Command.run limit).results machine ↔
      ((Command.run limit).results machine).getLast? = some (.error fault) := by
  constructor
  · rw [Command.results_eq, Command.stepped, List.getLast?_map]
    intro member
    obtain ⟨before, made, faulted⟩ := List.mem_map.mp member
    rw [Machine.getLast?_of_stops made (.inr ⟨fault, faulted⟩), Option.map_some, faulted]
  · exact List.mem_of_getLast?

section Answer

variable (sink : Sink σ) (monitor : Monitor σ) (limit : Nat)

/-- A run answers with the fault of the last attempt that it made. -/
theorem answer_run_fault (fault : Fault) :
    (monitor.perform sink (.run limit)).answer = .fault fault ↔
      ((Command.run limit).results monitor.machine).getLast? = some (.error fault) := by
  rw [Command.results_eq, Command.stepped, Command.limit, List.getLast?_map,
    Option.map_eq_some_iff, ← fault_run_iff]
  simp only [perform, run]
  split
  · rename_i same
    rw [same]
    simp
  · rename_i none
    rw [none]
    split <;> simp

/-- A run that answers with no fault has come to its end if the machine has halted. -/
theorem answer_run_done :
    (monitor.perform sink (.run limit)).answer = .done ↔
      (monitor.machine.after limit).halted = true ∧
        ∀ fault, .error fault ∉ (Command.run limit).results monitor.machine := by
  simp only [mem_results_iff_last, ← answer_run_fault sink monitor limit]
  simp only [perform, run, Machine.run, Machine.drive_eq]
  split
  · simp
  · split <;> simp_all

end Answer

end Yielded

end LS8.Monitor
