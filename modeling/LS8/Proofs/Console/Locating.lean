import LS8.Proofs.Console.Outcome
import LS8.Proofs.Machine.Bounded

/-! Where a fault is said to be. The record of a fault is written after the fact, from a machine
that has halted; it is right since a fault moves neither the program counter nor a cell, and since
the program counter is never further than right behind memory. -/
namespace LS8.Console

open Monitor

namespace Location

variable {machine : Machine}

theorem of_past (past : machine.counter = 0x100) : of machine = ⟨0x100, none⟩ := by
  simp only [of, past]
  rfl

theorem of_fetch {byte : UInt8} (fetched : machine.memory.fetch machine.counter = .ok byte) :
    of machine = ⟨machine.counter, some byte⟩ := by
  simp only [of, fetched]
  rfl

/-- Where a step faults there is a byte that it fetched, unless that was past memory. -/
theorem of_faulted {fault : Fault} (running : machine.halted = false)
    (inside : machine.counter.toNat ≤ 256) (faulted : machine.step.result = .error fault) :
    ((of machine).opcode = none ↔ machine.counter = 0x100) ∧
    (machine.counter = 0x100 →
      (of machine).text = "(pc 0x100)" ∧ fault = .addressing (.pastMemory 0x100)) ∧
    ∀ byte, (of machine).opcode = some byte →
      (of machine).text = "(pc " ++ Numeral.address.write machine.counter.toNat ++ ", opcode " ++
        Numeral.address.write byte.toNat ++ ")" ∧
      machine.memory.fetch machine.counter = .ok byte ∧
      ((∃ opcode counter, fault = .illegalInstruction opcode counter) ↔
        Opcode.ofByte? byte = none) ∧
      ∀ opcode counter, fault = .illegalInstruction opcode counter →
        opcode = byte ∧ counter = machine.counter := by
  rcases Machine.fault_cases running inside faulted with ⟨past, rfl⟩ | ⟨byte, fetched, kinds⟩
  · rw [of_past past]
    exact ⟨iff_of_true rfl past, fun _ => ⟨by decide, rfl⟩, nofun⟩
  have within : machine.counter ≠ 0x100 := by
    intro past
    rw [past] at fetched
    cases fetched
  rw [of_fetch fetched]
  refine ⟨iff_of_false nofun within, fun past => absurd past within, ?_⟩
  rintro _ ⟨⟩
  refine ⟨rfl, fetched, ?_⟩
  rcases kinds with ⟨none, rfl⟩ | ⟨some, cause, rfl⟩
  · refine ⟨iff_of_true ⟨byte, machine.counter, rfl⟩ none, ?_⟩
    rintro _ _ ⟨⟩
    exact ⟨rfl, rfl⟩
  · exact ⟨iff_of_false nofun some, nofun⟩

end Location

/-- Only an entry that tells of a fault, and closes a turn with it, is grave. -/
theorem Entry.level?_eq_error_iff {entry : Entry} :
    entry.level? = some .error ↔ ∃ fault, entry.result? = some (.error fault) := by
  cases entry with
  | happened event => cases event <;> simp [level?, result?, Log.levelOf?]
  | _ => simp [level?, result?]

/-- What has not told of a fault shows no grave record. -/
theorem Entry.level_ne_error {entries : List Entry}
    (unfaulted : ∀ fault, .error fault ∉ entries.filterMap result?) {record : Log.Record}
    (member : record ∈ entries.filterMap record?) : record.level ≠ .error := by
  intro grave
  obtain ⟨entry, told, recorded⟩ := List.mem_filterMap.mp member
  have level : entry.level? = some .error := by
    rw [← entry.level_record?, recorded, Option.map_some, grave]
  obtain ⟨fault, faulted⟩ := level?_eq_error_iff.mp level
  exact unfaulted fault (List.mem_filterMap.mpr ⟨entry, told, faulted⟩)

namespace Session

variable (traced : Bool) (outlet : Outlet) (path : String)

/-- The turn of a step that faults ends with two entries that tell of it. -/
theorem told_faulted {machine : Machine} {fault : Fault} (running : machine.halted = false)
    (faulted : machine.step.result = .error fault) :
    ∃ front, told traced outlet machine = front ++
        [.happened (.faulted machine.counter fault), .stopped fault (.of machine)] ∧
      front.filterMap Entry.result? = [] := by
  have step := Machine.step_faulted running faulted
  refine ⟨(if traced then machine.snapshot.toList.map .traced else []) ++
    machine.fetch.toOption.toList.map fun instruction =>
      .happened (.fetched machine.counter instruction), ?_, ?_⟩
  · have located : Location.of { machine with halted := true } = .of machine := rfl
    cases outlet <;> simp [told, closing, step, located, Entry.ofEvent, Function.comp_def]
  · cases traced <;> cases machine.snapshot <;> simp [Entry.result?]

/-- A session that ends with a fault has told what it would have told had it been left in time, and
then of the step that faulted. -/
theorem account_faulted {limit : Nat} {source : List UInt8} {program : Assembly.Program}
    {fault : Fault} (assembled : (Assembly.assemble source).result = .ok program) {last : Machine}
    (found : ((Machine.fresh.load program).machine.stepped limit).getLast? = some last)
    (faulted : last.step.result = .error fault) :
    ∃ front, account traced outlet limit path (.ok source) = front ++
        [.happened (.faulted last.counter fault), .stopped fault (.of last)] ∧
      ∀ cause, .error cause ∉ front.filterMap Entry.result? := by
  obtain ⟨index, -, running, same, made⟩ :=
    Machine.stepped_of_stops (List.mem_of_getLast? found) (.inr ⟨fault, faulted⟩)
  obtain ⟨front, told, quiet⟩ := told_faulted traced outlet running faulted
  refine ⟨account traced outlet index path (.ok source) ++ front, ?_, ?_⟩
  · simp only [account, assembled, same, List.flatMap_append, List.flatMap_singleton, told,
      List.append_assoc]
  · intro cause reported
    simp only [List.filterMap_append, quiet, List.append_nil, result?_account, attempts, assembled,
      List.mem_map] at reported
    obtain ⟨before, member, failed⟩ := reported
    obtain ⟨opcode, succeeded⟩ := made before member
    cases succeeded.symm.trans failed

variable {outlet}

/-- A session that ends with a fault has run a program on a fresh machine, to a step that faults. -/
theorem finish_faulted {limit : Nat} {source : List UInt8} {fault : Fault}
    (faulted : finish outlet limit (.ok source) = some (.faulted fault)) :
    ∃ program memory before, (Assembly.assemble source).result = .ok program ∧
      (Machine.fresh.load program).machine = { Machine.fresh with memory } ∧
      Memory.Overlaid program .blank memory ∧
      (Machine.stepped limit { Machine.fresh with memory }).getLast? = some before ∧
      before.step.result = .error fault := by
  unfold finish at faulted
  dsimp only at faulted
  split at faulted
  · cases faulted
  rename_i program assembled
  obtain ⟨memory, loaded, cells⟩ := load_assembled assembled
  rw [loaded] at faulted
  have running : ({ Machine.fresh with memory } : Machine).halted = false := rfl
  rcases Ending.ofRun_cases running limit with ⟨cause, ⟨before, found, failed⟩, ends⟩ |
    ⟨-, -, ends⟩ | unended
  · obtain rfl := Ending.faulted.inj (Option.some.inj ((ends _).symm.trans faulted))
    exact ⟨program, memory, before, assembled, congrArg Attempt.machine loaded, cells, found,
      failed⟩
  · have closed := Option.some.inj ((ends _).symm.trans faulted)
    revert closed
    cases remember none outlet _ <;> nofun
  · cases (unended _).symm.trans faulted

end Session

/-- The last two records of a run that faults say where it did, and nothing before them is as grave.
The address is that of the instruction, and the byte is the one that the step fetched there, which
is there still; both stand in the fault as well if the byte is no opcode. There is no byte exactly
if the program counter had run past memory. -/
theorem fault_is_located {traced : Bool} {outlet : Outlet} {limit : Nat} {path : String}
    {source : List UInt8} {fault : Fault}
    (faulted : (transcript outlet limit (Session.start traced path (.ok source))).2 =
      some (.faulted fault)) :
    let told := (transcript outlet limit (Session.start traced path (.ok source))).1
    ∃ program memory before location earlier,
      (Assembly.assemble source).result = .ok program ∧
      Memory.Overlaid program .blank memory ∧
      (Machine.stepped limit { Machine.fresh with memory }).getLast? = some before ∧
      before.step.result = .error fault ∧
      told.getLast? = some (.stopped fault location) ∧
      told.filterMap Entry.record? = earlier ++
        [⟨.debug, "ls8::machine", "faulted at " ++
            Numeral.address.write before.counter.toNat ++ ": " ++ fault.message⟩,
          ⟨.error, "ls8", fault.message ++ " " ++ location.text⟩] ∧
      (∀ record ∈ earlier, record.level ≠ .error) ∧
      location.counter = before.counter ∧
      before.step.machine.counter = before.counter ∧
      (location.opcode = none ↔ before.counter = 0x100) ∧
      (before.counter = 0x100 →
        location.text = "(pc 0x100)" ∧ fault = .addressing (.pastMemory 0x100)) ∧
      ∀ byte, location.opcode = some byte →
        location.text = "(pc " ++ Numeral.address.write before.counter.toNat ++ ", opcode " ++
          Numeral.address.write byte.toNat ++ ")" ∧
        before.memory.fetch before.counter = .ok byte ∧
        before.step.machine.memory.fetch before.counter = .ok byte ∧
        ((∃ opcode counter, fault = .illegalInstruction opcode counter) ↔
          Opcode.ofByte? byte = none) ∧
        ∀ opcode counter, fault = .illegalInstruction opcode counter →
          opcode = byte ∧ counter = before.counter := by
  intro told
  simp only [told, Session.transcript_start] at faulted ⊢
  obtain ⟨program, memory, before, assembled, loaded, cells, found, failed⟩ :=
    Session.finish_faulted faulted
  obtain ⟨running, inside⟩ := Machine.inside_of_getLast? found (Nat.zero_le 256)
  obtain ⟨front, account, quiet⟩ :=
    Session.account_faulted traced outlet path assembled (loaded ▸ found) failed
  have kept : before.step.machine = { before with halted := true } :=
    congrArg Attempt.machine (Machine.step_faulted running failed)
  have uncomplaining : Ending.complaints path (some (.faulted fault)) = [] := rfl
  obtain ⟨missing, past, byte⟩ := Location.of_faulted running inside failed
  rw [faulted, account, uncomplaining, List.append_nil]
  refine ⟨program, memory, before, .of before, front.filterMap Entry.record?, assembled, cells,
    found, failed, ?_, ?_, fun _ => Entry.level_ne_error quiet, rfl, by rw [kept], missing, past,
    ?_⟩
  · exact List.getLast?_append_of_ne_nil _ (List.cons_ne_nil _ _)
  · exact List.filterMap_append
  · intro opcode shown
    obtain ⟨text, fetched, illegal⟩ := byte opcode shown
    exact ⟨text, fetched, by rw [kept]; exact fetched, illegal⟩

/-- A program whose first byte is no opcode. -/
def unknowable : List UInt8 := "11111111".toList.map Char.toUInt8

theorem fault_is_located_unknowable :
    let told := transcript .accepting 2 (Session.start false "prog" (.ok unknowable))
    told.2 = some (.faulted (.illegalInstruction 0xff 0)) ∧
    ∃ earlier, told.1.filterMap Entry.record? = earlier ++
      [⟨.debug, "ls8::machine", "faulted at 0x00: illegal instruction 0xff at 0x00"⟩,
        ⟨.error, "ls8", "illegal instruction 0xff at 0x00 (pc 0x00, opcode 0xff)"⟩] := by
  have faulted : (transcript .accepting 2 (Session.start false "prog" (.ok unknowable))).2 =
      some (.faulted (.illegalInstruction 0xff 0)) := by
    decide +kernel
  refine ⟨faulted, ?_⟩
  obtain ⟨-, -, before, location, earlier, -, -, -, -, -, records, -, -, -, missing, past, byte⟩ :=
    fault_is_located faulted
  cases shown : location.opcode with
  | none =>
    obtain ⟨-, other⟩ := past (missing.mp shown)
    cases other
  | some opcode =>
    obtain ⟨text, -, -, -, same⟩ := byte opcode shown
    obtain ⟨rfl, counter⟩ := same 0xff 0 rfl
    rw [text, ← counter] at records
    exact ⟨earlier, records⟩

end LS8.Console
