import LS8.Proofs.Console.Locating
import LS8.Proofs.Monitor.Counter
import LS8.Proofs.Monitor.Recording

/-! What a trace shows is what is executed. A snapshot peeks at three cells on its own, whatever the
length of the instruction and wherever memory ends; it agrees with what the step then reads, since
both start at the same program counter and nothing that a step takes is past memory. In a traced
session snapshots and steps take turns until the machine halts. -/
namespace LS8

/-- The bytes of an instruction are in front in a snapshot. What follows them is not looked at. -/
structure Snapshot.Shows (snapshot : Snapshot) (instruction : Instruction) : Prop where
  opcode : snapshot.bytes[0] = instruction.opcode.byte
  taken : ∀ position : Fin 2, position < instruction.opcode.operandCount →
    snapshot.bytes[position.succ] = instruction.operandAt position
  untaken : ∀ position : Nat, instruction.opcode.operandCount ≤ position →
    instruction.operandAt position = 0

theorem Memory.peek_of_lt (memory : Memory) {address : UInt16} (inside : address.toNat < 256) :
    memory.peek address = memory.read address.toUInt8 := by
  rw [peek, memory.fetch_of_lt inside]

namespace Machine

variable {machine : Machine}

theorem shows_of_attempted {instruction : Instruction} {snapshot : Snapshot}
    (taken : machine.snapshot = some snapshot)
    (attempted : machine.attempted? = some instruction) : snapshot.Shows instruction := by
  have fetched := attempted?_eq_some_iff.mp attempted
  obtain ⟨inside, byte, -⟩ := fetch_eq_ok_iff.mp fetched
  have low : machine.counter.toNat + 2 < 65536 := by omega
  obtain rfl := Option.some.inj
    (taken.symm.trans (Snapshot.capture_of_lt machine.memory machine.registers low))
  have few := instruction.opcode.operandCount_le_two
  have sum {offset : UInt16} (taken : offset.toNat ≤ instruction.opcode.operandCount) :
      (machine.counter + offset).toNat < 256 := by
    rw [UInt16.toNat_add]
    omega
  refine ⟨?_, ?_, ?_⟩
  · exact (machine.memory.peek_of_lt (by omega)).trans byte
  · intro position taken
    rw [operandAt_of_fetch fetched taken]
    obtain ⟨index, bound⟩ := position
    rcases index with _ | _ | more
    · exact machine.memory.peek_of_lt (sum taken)
    · exact machine.memory.peek_of_lt (sum taken)
    · omega
  · intro position untaken
    rw [Instruction.operandAt, List.getD_eq_getElem?_getD,
      List.getElem?_eq_none (by rwa [Instruction.length_operands])]
    rfl

/-- What the snapshot of a machine that is about to make a step has to do with that step and with
its records. -/
structure Foreseen (machine : Machine) (snapshot : Snapshot) : Prop where
  taken : machine.snapshot = some snapshot
  counter : snapshot.counter = machine.counter
  registers : snapshot.registers = machine.registers
  bytes : ∀ index : Fin 3, snapshot.bytes[index] =
    machine.memory.toList.getD (machine.counter.toNat + index) 0
  recorded : ∀ record ∈ machine.records, record.level = .trace → ∃ instruction,
    record = .fetched machine.counter instruction ∧ snapshot.Shows instruction
  executed : ∀ opcode, machine.step.result = .ok opcode → ∃ instruction : Instruction,
    instruction.opcode = opcode ∧ .fetched machine.counter instruction ∈ machine.records ∧
    snapshot.Shows instruction

theorem exists_foreseen (inside : machine.counter.toNat ≤ 256) :
    ∃ snapshot, machine.Foreseen snapshot := by
  have low : machine.counter.toNat + 2 < 65536 := by omega
  obtain ⟨snapshot, taken, counter, registers, bytes⟩ :=
    Snapshot.exists_capture machine.memory machine.registers low
  refine ⟨snapshot, taken, counter, registers, bytes, ?_, ?_⟩
  · intro record member level
    rcases List.mem_append.mp member with attempt | closing
    · obtain ⟨instruction, attempted, rfl⟩ :=
        Option.map_eq_some_iff.mp (Option.mem_toList.mp attempt)
      exact ⟨instruction, rfl, shows_of_attempted taken attempted⟩
    · have told := Option.mem_toList.mp closing
      unfold closingRecord? at told
      split at told <;> cases told <;> cases level
  · intro opcode made
    obtain ⟨-, instruction, same, fetched, -⟩ := step_eq_ok made
    have attempted := attempted?_eq_some_iff.mpr fetched
    refine ⟨instruction, same, ?_, shows_of_attempted taken attempted⟩
    rw [records, attemptRecord?, attempted]
    exact List.mem_append_left _ List.mem_cons_self

end Machine

namespace Console

open Monitor

/-- The records of the turn in which a machine makes a step, that of a fault apart. -/
def turnRecords (before : Machine) : List Log.Record :=
  (before.snapshot.toList.map fun snapshot => ⟨.info, "ls8", snapshot.text⟩) ++ before.records ++
    match before.step.result with
    | .ok opcode => [⟨.trace, "ls8", "executed " ++ opcode.mnemonic⟩]
    | .error _ => []

/-- The record of a fault that ends a session. -/
def faultRecord? (before : Machine) : Option Log.Record :=
  match before.step.result with
  | .ok _ => none
  | .error fault => some ⟨.error, "ls8", fault.message ++ " " ++ (Location.of before).text⟩

theorem records_told {before : Machine} (running : before.halted = false) :
    (Session.told true .accepting before).filterMap Entry.record? =
      turnRecords before ++ (faultRecord? before).toList := by
  have happened : (before.step.events.map (Entry.ofEvent .accepting)).filterMap Entry.record? =
      before.records := by
    rw [← Machine.records_step running, List.filterMap_map]
    exact List.filterMap_congr fun event _ => by cases event <;> rfl
  have shown : Entry.record? ∘ Entry.traced =
      some ∘ fun snapshot : Snapshot => ⟨.info, "ls8", snapshot.text⟩ := rfl
  simp only [Session.told, if_true, List.filterMap_append, happened, List.filterMap_map, shown,
    List.filterMap_eq_map]
  cases made : before.step.result with
  | ok opcode => simp [turnRecords, faultRecord?, Session.closing, made, Entry.record?, target]
  | error fault =>
    have kept : Location.of before.step.machine = .of before := by
      rw [Machine.step_faulted running made]
      rfl
    simp [turnRecords, faultRecord?, Session.closing, made, Entry.record?, target, kept]

/-- Only the last step of a run can leave the record of a fault. -/
theorem records_turns {made : List Machine} (running : ∀ before ∈ made, before.halted = false)
    (ordered : made.Pairwise fun earlier _ => ¬Stops earlier.step.result) :
    (made.flatMap (Session.told true .accepting)).filterMap Entry.record? =
      made.flatMap turnRecords ++ (made.getLast?.bind faultRecord?).toList := by
  induction made with
  | nil => rfl
  | cons before rest ih =>
    have first := records_told (running before List.mem_cons_self)
    cases rest with
    | nil => simpa using first
    | cons next rest =>
      have goesOn := List.rel_of_pairwise_cons ordered List.mem_cons_self
      obtain ⟨opcode, -, made⟩ := not_stops_iff.mp goesOn
      have faultless : faultRecord? before = none := by simp only [faultRecord?, made]
      have later := ih (fun before member => running before (List.mem_cons_of_mem _ member))
        (List.pairwise_cons.mp ordered).2
      rw [List.flatMap_cons, List.filterMap_append, first, later, faultless,
        List.getLast?_cons_cons]
      simp only [Option.toList_none, List.append_nil, List.flatMap_cons, List.append_assoc]

theorem shows_all (level : Log.Level) : Log.Threshold.shows (some .trace) level = true := by
  cases level <;> rfl

/-- A run whose values are all printed ends without a complaint. -/
theorem complaint?_ofRun (path : String) (limit : Nat) (machine : Machine) :
    (Ending.ofRun limit machine none).bind (Ending.complaint? path) = none := by
  unfold Ending.ofRun
  split
  · rfl
  · split <;> rfl

/-- The records that a session makes before its first turn. -/
def loadingRecords (path : String) (source : List UInt8) (program : Assembly.Program) :
    List Log.Record :=
  (Assembly.assemble source).notices.map Log.ofNotice ++
    [⟨.debug, "ls8", path ++ " is " ++ toString program.length ++ " bytes long"⟩,
      .loaded program.length]

theorem errors_traced {arguments : List String} {path : String}
    (requested : Request.ofArguments arguments = .run true path)
    {read : String → Except ReadFault (List UInt8)} {source : List UInt8}
    (found : read path = .ok source) {program : Assembly.Program}
    (assembled : (Assembly.assemble source).result = .ok program) (limit : Nat) :
    let made := (Machine.fresh.load program).machine.stepped limit
    (Report.ofCommand arguments read (some (some .trace)) .accepting limit).errors =
      (loadingRecords path source program ++ made.flatMap turnRecords ++
        (made.getLast?.bind faultRecord?).toList).map Log.Record.line := by
  intro made
  have running (before : Machine) (member : before ∈ made) : before.halted = false := by
    obtain ⟨-, -, -, running⟩ := Machine.mem_stepped_iff.mp member
    exact running
  have turns := records_turns running (Machine.pairwise_stepped limit _)
  have quiet : (Session.finish .accepting limit (.ok source)).bind (Ending.complaint? path) =
      none := by
    simp only [Session.finish, assembled]
    exact complaint?_ofRun path limit _
  have before : ((Assembly.assemble source).notices.map Entry.noted ++
      [Entry.measured path program.length, .happened (.loaded program.length)]).filterMap
        Entry.record? = loadingRecords path source program := by
    simp [loadingRecords, Entry.record?, Log.ofEvent?, Log.Record.loaded, Numeral.decimal_write,
      Log.machineTarget, target, Function.comp_def]
  simp only [Report.ofCommand_eq requested, found, quiet, Option.getD_some, shows_all,
    List.filter_true, Option.toList_none, List.append_nil, Session.account, assembled]
  rw [← List.append_assoc, List.filterMap_append, before, turns]
  simp only [List.append_assoc]

/-- A trace shows the instruction that is executed. Wherever a machine has got to, there is a snapshot
before a step, and it has the bytes of the instruction in front, as the step then reads and records
them. In a traced session each step of the run has a snapshot right before its records, a record
right behind them if it succeeds, and there is nothing else but the record of the fault that a last
step may end with. -/
theorem trace_shows_what_is_executed (sink : Sink σ) (output : σ) :
    (∀ commands,
      let monitor := (fresh output).performAll sink commands
      monitor.machine.halted = false →
        (monitor.perform sink .trace).answer = .snapshot monitor.machine.snapshot ∧
        (monitor.perform sink .step).records = monitor.machine.records ∧
        ∃ snapshot, monitor.machine.Foreseen snapshot) ∧
    (∀ arguments path, Request.ofArguments arguments = .run true path →
      ∀ read source program, read path = .ok source →
        (Assembly.assemble source).result = .ok program →
      ∀ limit,
        let made := (Machine.fresh.load program).machine.stepped limit
        (Report.ofCommand arguments read (some (some .trace)) .accepting limit).errors =
          (loadingRecords path source program ++ made.flatMap turnRecords ++
            (made.getLast?.bind faultRecord?).toList).map Log.Record.line ∧
        ∀ before ∈ made, before.halted = false ∧ ∃ snapshot, before.Foreseen snapshot) := by
  refine ⟨?_, ?_⟩
  · intro commands monitor running
    have start : (fresh output).machine.counter.toNat ≤ 256 := Nat.zero_le 256
    exact ⟨rfl, Machine.records_step running,
      Machine.exists_foreseen (counter_performAll_le sink start commands)⟩
  · intro arguments path requested read source program found assembled limit made
    refine ⟨errors_traced requested found assembled limit, ?_⟩
    intro before member
    obtain ⟨memory, loaded, -⟩ := Session.load_assembled assembled
    have start : (Machine.fresh.load program).machine.counter.toNat ≤ 256 := by
      rw [loaded]
      exact Nat.zero_le 256
    obtain ⟨index, -, rfl, running⟩ := Machine.mem_stepped_iff.mp member
    exact ⟨running, Machine.exists_foreseen (Machine.counter_after_le start index)⟩

/-- A machine about to execute HLT from the last cell. -/
def cornered : List Command :=
  [.load [0x82, 0x00, 0xff, 0x54, 0x00], .write 0xff 0x01, .steps 2]

theorem trace_shows_what_is_executed_cornered :
    (∃ (snapshot : Snapshot) (instruction : Instruction),
      ((fresh ()).performAll .discard cornered).machine.snapshot = some snapshot ∧
      snapshot.Shows instruction ∧ instruction.opcode = .hlt) ∧
    (Report.ofCommand ["-v", "prog"] (fun _ => .ok ("HLT".toList.map Char.toUInt8))
      (some (some .trace)) .accepting 2).errors =
        ["DEBUG ls8: prog is 1 bytes long",
          "DEBUG ls8::machine: loaded 1 bytes",
          "INFO ls8: TRACE: 00 | 01 00 00 | 00 00 00 00 00 00 00 F4",
          "TRACE ls8::machine: 0x00: HLT 0x00 0x00",
          "DEBUG ls8::machine: halted at 0x00",
          "TRACE ls8: executed HLT"] := by
  obtain ⟨driven, attended⟩ := trace_shows_what_is_executed .discard ()
  obtain ⟨-, -, snapshot, foreseen⟩ := driven cornered (by decide +kernel)
  obtain ⟨instruction, same, -, shown⟩ := foreseen.executed .hlt (by decide +kernel)
  obtain ⟨errors, -⟩ := attended ["-v", "prog"] "prog" (by decide)
    (fun _ => .ok ("HLT".toList.map Char.toUInt8)) _ [0x01] rfl rfl 2
  exact ⟨⟨snapshot, instruction, foreseen.taken, shown, same⟩, errors.trans (by decide +kernel)⟩

end Console
end LS8
