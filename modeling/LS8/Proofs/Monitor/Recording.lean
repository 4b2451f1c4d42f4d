import LS8.Proofs.Machine.Recording
import LS8.Proofs.Monitor.Printing

/-! The records of a machine as its history. A machine records the loads that succeed and the steps
that it attempts, each of them in its own way, and nothing else that is done to it. So at most one
record in its life tells of its end, and no instruction is recorded after that. -/
namespace LS8.Monitor

/-- What a machine records. -/
inductive Deed
  | loaded (size : Nat)
  /-- A step, by the running machine it is made on. -/
  | attempted (before : Machine)

namespace Deed

def attempt? : Deed → Option Machine
  | loaded _ => none
  | attempted before => some before

def records : Deed → List Log.Record
  | loaded size => [.loaded size]
  | attempted before => before.records

theorem pairwise_records (deed : Deed) : deed.records.Pairwise Log.Record.MayPrecede := by
  cases deed with
  | loaded size => exact List.pairwise_singleton _ _
  | attempted before => exact before.pairwise_records

/-- Behind a step that is the last one of its machine there can still be loads. -/
theorem mayPrecede {earlier later : Deed}
    (ends : ∀ before, earlier.attempt? = some before → ∀ next, later.attempt? = some next →
      ¬Stops before.step.result) :
    ∀ first ∈ earlier.records, ∀ second ∈ later.records, first.MayPrecede second := by
  intro first told second member ending
  cases earlier with
  | loaded size =>
    obtain rfl := List.mem_singleton.mp told
    rw [Log.Record.tellsEnd_loaded] at ending
    contradiction
  | attempted before =>
    have stops := Machine.stops_of_tellsEnd told ending
    cases later with
    | loaded size =>
      obtain rfl := List.mem_singleton.mp member
      exact ⟨Log.Record.tellsEnd_loaded size, nofun⟩
    | attempted next => exact absurd stops (ends before rfl next rfl)

end Deed

namespace Command

/-- A program that is not loaded is not recorded. -/
def loads (machine : Machine) (program : List UInt8) : List Deed :=
  match (machine.load program).result with
  | .ok () => [.loaded program.length]
  | .error _ => []

/-- What is recorded of a command. -/
def deeds (machine : Machine) : Command → List Deed
  | load program => loads machine program
  | source text =>
    match (Assembly.assemble text).result with
    | .ok program => loads machine program
    | .error _ => []
  | command => (command.stepped machine).map .attempted

variable (machine : Machine)

theorem deeds_of_drives {command : Command} (driving : command.drives = true) :
    command.deeds machine = (command.stepped machine).map .attempted := by
  cases command
  case load | source => cases driving
  all_goals rfl

theorem filterMap_load (program : List UInt8) :
    (machine.load program).events.filterMap Log.ofEvent? =
      (loads machine program).flatMap Deed.records := by
  rcases Nat.lt_or_ge 256 program.length with large | fits
  · simp only [loads, machine.load_of_lt large]
    rfl
  · obtain ⟨memory, loaded, -⟩ := machine.load_of_le fits
    simp only [loads, loaded]
    simp [Log.ofEvent?, Deed.records, Log.Record.loaded, Numeral.decimal_write, Log.machineTarget]

theorem filterMap_events (command : Command) :
    (command.events machine).filterMap Log.ofEvent? =
      (command.deeds machine).flatMap Deed.records := by
  cases driving : command.drives with
  | true =>
    rw [events_of_drives driving, deeds_of_drives machine driving, List.filterMap_flatMap,
      List.flatMap_map]
    apply List.flatMap_congr
    intro before member
    obtain ⟨-, -, -, running⟩ := Machine.mem_stepped_iff.mp member
    exact Machine.records_step running
  | false =>
    cases command
    case load program => exact filterMap_load machine program
    case source text =>
      simp only [events, deeds]
      cases (Assembly.assemble text).result with
      | ok program => exact filterMap_load machine program
      | error diagnostic => rfl
    case step | run | steps => cases driving
    all_goals rfl

theorem filterMap_attempt? (command : Command) :
    (command.deeds machine).filterMap Deed.attempt? = command.stepped machine := by
  have loading (program : List UInt8) : (loads machine program).filterMap Deed.attempt? = [] := by
    unfold loads
    split <;> rfl
  have attempts (made : List Machine) :
      (made.map Deed.attempted).filterMap Deed.attempt? = made := by
    simp [List.filterMap_map, Function.comp_def, Deed.attempt?]
  cases command
  case load program => exact loading program
  case source text =>
    simp only [deeds]
    split
    · exact loading _
    · rfl
  all_goals exact attempts _

end Command

/-- The records that a machine makes of its events are those of its history. -/
theorem filterMap_gather_events (machine : Machine) (commands : List Command) :
    (gather Command.events machine commands).filterMap Log.ofEvent? =
      (gather Command.deeds machine commands).flatMap Deed.records := by
  induction commands generalizing machine with
  | nil => rfl
  | cons command rest ih =>
    rw [gather_cons, gather_cons, List.filterMap_append, List.flatMap_append, ih,
      Command.filterMap_events]

theorem filterMap_gather_deeds (machine : Machine) (commands : List Command) :
    (gather Command.deeds machine commands).filterMap Deed.attempt? =
      gather Command.stepped machine commands := by
  induction commands generalizing machine with
  | nil => rfl
  | cons command rest ih =>
    rw [gather_cons, gather_cons, List.filterMap_append, ih, Command.filterMap_attempt?]

/-- The assembler's records are under a name of their own. -/
theorem Reply.filter_records (reply : Reply σ) :
    (reply.records.filter fun record => record.target = "ls8::machine") =
      reply.events.filterMap Log.ofEvent? := by
  have noted (notices : List Assembly.Notice) :
      ((notices.map Log.ofNotice).filter fun record => record.target = "ls8::machine") = [] := by
    apply List.filter_eq_nil_iff.mpr
    intro record member
    obtain ⟨notice, -, rfl⟩ := List.mem_map.mp member
    cases notice <;> simp [Log.ofNotice, Log.assemblerTarget]
  have happened (events : List Event) : ((events.filterMap Log.ofEvent?).filter fun record =>
      record.target = "ls8::machine") = events.filterMap Log.ofEvent? := by
    apply List.filter_eq_self.mpr
    intro record member
    obtain ⟨event, -, told⟩ := List.mem_filterMap.mp member
    cases event <;> cases told <;> rfl
  rw [records, Log.ofActivity, List.filter_append, noted, happened, List.nil_append]

theorem gather_stepped_halted {machine : Machine} (halted : machine.halted = true)
    (commands : List Command) : gather Command.stepped machine commands = [] := by
  induction commands generalizing machine with
  | nil => rfl
  | cons command rest ih =>
    rw [gather_cons, Command.stepped_eq_nil (.inr halted),
      ih (Command.halted_apply_iff.mpr (.inl halted)), List.append_nil]

/-- Whatever the commands, no step is made after one that halts the machine. -/
theorem pairwise_gather_stepped (machine : Machine) (commands : List Command) :
    (gather Command.stepped machine commands).Pairwise fun earlier _ =>
      ¬Stops earlier.step.result := by
  induction commands generalizing machine with
  | nil => exact .nil
  | cons command rest ih =>
    refine List.pairwise_append.mpr ⟨Machine.pairwise_stepped _ _, ih _, ?_⟩
    intro earlier made later member stops
    have halted := Command.halted_apply_iff.mpr (.inr ⟨earlier, made, stops⟩)
    rw [gather_stepped_halted halted] at member
    cases member

theorem pairwise_history (machine : Machine) (commands : List Command) :
    ((gather Command.deeds machine commands).flatMap Deed.records).Pairwise
      Log.Record.MayPrecede := by
  have attempts := pairwise_gather_stepped machine commands
  rw [← filterMap_gather_deeds, List.pairwise_filterMap] at attempts
  exact List.pairwise_flatMap.mpr ⟨fun deed _ => deed.pairwise_records, attempts.imp Deed.mayPrecede⟩

/-- What the machine records of some commands, performed one after the other. -/
def logged (monitor : Monitor σ) (sink : Sink σ) (commands : List Command) : List Log.Record :=
  ((monitor.replies sink commands).flatMap Reply.records).filter
    fun record => record.target = "ls8::machine"

theorem logged_eq (sink : Sink σ) (monitor : Monitor σ) (commands : List Command) :
    monitor.logged sink commands =
      (gather Command.deeds monitor.machine commands).flatMap Deed.records := by
  rw [logged, List.filter_flatMap, List.flatMap_congr fun reply _ => reply.filter_records,
    ← List.filterMap_flatMap, flatMap_events_replies, filterMap_gather_events]

theorem carriedOut_history (machine : Machine) (commands : List Command) :
    (gather Command.deeds machine commands).flatMap (fun deed => carriedOut deed.records) =
      (gather Command.stepped machine commands).filterMap Machine.executedRecord? := by
  rw [← filterMap_gather_deeds, List.filterMap_filterMap, List.filterMap_eq_flatMap_toList]
  apply List.flatMap_congr
  intro deed _
  cases deed with
  | loaded size => simp [Deed.records, Deed.attempt?, carriedOut]
  | attempted before => exact before.carriedOut_records

/-- What a machine records is its history. A load is recorded if it succeeds. Of a step there is the
record of the instruction if all its bytes could be read, and then the record that the machine has
halted or faulted if it has. So there is one such record at most, with no instruction after it. An
instruction was executed unless its own step goes on to record a fault. -/
theorem log_is_history (sink : Sink σ) (monitor : Monitor σ) (commands : List Command) :
    let made := gather Command.stepped monitor.machine commands
    let history := gather Command.deeds monitor.machine commands
    let logged := monitor.logged sink commands
    logged = history.flatMap Deed.records ∧
    history.filterMap Deed.attempt? = made ∧
    (logged.filter Log.Record.tellsEnd).length ≤ 1 ∧
    logged.Pairwise Log.Record.MayPrecede ∧
    history.flatMap (fun deed => carriedOut deed.records) =
      made.filterMap Machine.executedRecord? := by
  intro made history logged
  have recorded : logged = history.flatMap Deed.records := logged_eq sink monitor commands
  rw [recorded]
  have ordered := pairwise_history monitor.machine commands
  exact ⟨rfl, filterMap_gather_deeds _ _, Log.Record.length_filter_tellsEnd ordered, ordered,
    carriedOut_history _ _⟩

/-- A program that ends without HLT: a zero byte stands behind its one instruction. -/
def runningOut : List Command := [.load [0x82, 0x00, 0x08], .steps 3]

/-- An instruction that was executed may be recorded right before a fault, which is that of the
next step. -/
theorem fault_follows_executed :
    let executed := (gather Command.stepped .fresh runningOut).filterMap Machine.executedRecord?
    executed = [.fetched 0 (.ldi 0 8)] ∧
    carriedOut ((fresh ()).logged .discard runningOut) ≠ executed := by
  decide +kernel

end LS8.Monitor
