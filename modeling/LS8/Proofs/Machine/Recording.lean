import LS8.Log.Record
import LS8.Proofs.Machine.Halting

/-! What is recorded of a step. The instruction is recorded as soon as all its bytes are read, so
before anything can refuse it; that the machine has halted is recorded when all else is done. What
is recorded can be told from the machine before the step and from what the step comes to. -/
namespace LS8

namespace Log.Record

def loaded (size : Nat) : Record :=
  ⟨.debug, "ls8::machine", "loaded " ++ toString size ++ " bytes"⟩

/-- Two operands are recorded of every instruction, zero for one that is not taken. -/
def fetched (counter : UInt16) (instruction : Instruction) : Record :=
  ⟨.trace, "ls8::machine", Numeral.address.write counter.toNat ++ ": " ++
    instruction.opcode.mnemonic ++
    " " ++ Numeral.address.write (instruction.operandAt 0).toNat ++
    " " ++ Numeral.address.write (instruction.operandAt 1).toNat⟩

def halted (counter : UInt16) : Record :=
  ⟨.debug, "ls8::machine", "halted at " ++ Numeral.address.write counter.toNat⟩

def faulted (counter : UInt16) (fault : Fault) : Record :=
  ⟨.debug, "ls8::machine",
    "faulted at " ++ Numeral.address.write counter.toNat ++ ": " ++ fault.message⟩

@[simp] theorem level_loaded (size : Nat) : (loaded size).level = .debug := rfl

@[simp] theorem level_fetched (counter : UInt16) (instruction : Instruction) :
    (fetched counter instruction).level = .trace := rfl

@[simp] theorem level_halted (counter : UInt16) : (halted counter).level = .debug := rfl

@[simp] theorem level_faulted (counter : UInt16) (fault : Fault) :
    (faulted counter fault).level = .debug := rfl

/-- Whether the text of a record begins like this. -/
def opens (record : Record) (front : String) : Bool :=
  front.toList.isPrefixOf record.text.toList

def tellsFault (record : Record) : Bool := record.opens "faulted at "

/-- Whether a record tells that the machine has come to its end. -/
def tellsEnd (record : Record) : Bool := record.opens "halted at " || record.tellsFault

@[simp] theorem tellsEnd_loaded (size : Nat) : (loaded size).tellsEnd = false := by
  simp [tellsEnd, tellsFault, opens, loaded, List.isPrefixOf_cons_cons]

@[simp] theorem tellsEnd_fetched (counter : UInt16) (instruction : Instruction) :
    (fetched counter instruction).tellsEnd = false := by
  simp [tellsEnd, tellsFault, opens, fetched, Numeral.address, Numeral.Style.write,
    List.isPrefixOf_cons_cons]

@[simp] theorem tellsFault_halted (counter : UInt16) : (halted counter).tellsFault = false := by
  simp [tellsFault, opens, halted, List.isPrefixOf_cons_cons]

@[simp] theorem tellsFault_faulted (counter : UInt16) (fault : Fault) :
    (faulted counter fault).tellsFault = true := by
  simp [tellsFault, opens, faulted]

/-- Behind a record that tells of the end there is none that tells of another, nor one of an
instruction. -/
def MayPrecede (earlier later : Record) : Prop :=
  earlier.tellsEnd = true → later.tellsEnd = false ∧ later.level ≠ .trace

theorem length_filter_tellsEnd {records : List Record} (ordered : records.Pairwise MayPrecede) :
    (records.filter tellsEnd).length ≤ 1 := by
  have alone : (records.filter tellsEnd).Pairwise fun _ _ => False := by
    refine List.pairwise_filter.mpr (ordered.imp ?_)
    intro earlier later precedes ends another
    rw [(precedes ends).1] at another
    contradiction
  generalize records.filter tellsEnd = ends at alone ⊢
  match ends with
  | [] => exact Nat.zero_le 1
  | [_] => exact Nat.le_refl 1
  | _ :: _ :: _ => exact (List.rel_of_pairwise_cons alone List.mem_cons_self).elim

end Log.Record

/-- The records of instructions among some records, those apart that the record of a fault follows
immediately. -/
def carriedOut : List Log.Record → List Log.Record
  | [] => []
  | record :: rest =>
    if record.level = .trace ∧ rest.head?.any Log.Record.tellsFault = false then
      record :: carriedOut rest
    else carriedOut rest

namespace Machine

/-- The instruction at the program counter, if there are all the bytes that it takes. -/
def attempted? (machine : Machine) : Option Instruction :=
  if machine.counter.toNat < 256 then
    (Opcode.ofByte? (machine.memory.read machine.counter.toUInt8)).bind fun opcode =>
      if machine.counter.toNat + opcode.operandCount < 256 then some (machine.instruction opcode)
      else none
  else none

theorem toOption_fetch (machine : Machine) : machine.fetch.toOption = machine.attempted? := by
  rw [fetch_eq, attempted?]
  dsimp only
  split
  · rw [if_neg (by omega)]
    rfl
  rw [if_pos (by omega)]
  cases Opcode.ofByte? (machine.memory.read machine.counter.toUInt8) with
  | none => rfl
  | some opcode =>
    dsimp only [Option.bind_some]
    split
    · rw [if_neg (by omega)]
      rfl
    · rw [if_pos (by omega)]
      rfl

/-- What a step attempts is the instruction that it fetches. -/
theorem attempted?_eq_some_iff {machine : Machine} {instruction : Instruction} :
    machine.attempted? = some instruction ↔ machine.fetch = .ok instruction := by
  rw [← toOption_fetch]
  cases machine.fetch <;> simp [Except.toOption]

/-- The record of the instruction that a step attempts. -/
def attemptRecord? (machine : Machine) : Option Log.Record :=
  machine.attempted?.map (.fetched machine.counter)

/-- The record of how a step ends, if it is the last one of its machine. -/
def closingRecord? (machine : Machine) : Option Log.Record :=
  match machine.step.result with
  | .ok .hlt => some (.halted machine.counter)
  | .ok _ => none
  | .error fault => some (.faulted machine.counter fault)

/-- The records of a step from a running machine. -/
def records (machine : Machine) : List Log.Record :=
  machine.attemptRecord?.toList ++ machine.closingRecord?.toList

theorem records_step {machine : Machine} (running : machine.halted = false) :
    machine.step.events.filterMap Log.ofEvent? = machine.records := by
  rw [records, attemptRecord?, ← toOption_fetch]
  rcases machine.fetch_cases with ⟨fault, unfetched⟩ | ⟨instruction, cause, fetched, refused⟩ |
    ⟨instruction, fetched, accepted⟩
  · simp only [closingRecord?, step_unfetched running unfetched, unfetched]
    rfl
  · simp only [closingRecord?, step_refused running fetched refused, fetched,
      List.filterMap_cons, Log.ofEvent?_fetched]
    rfl
  · have ends : (instruction.next machine).halted = true ↔ instruction.opcode = .hlt :=
      Instruction.halted_next_iff running
    have silent (values : List UInt8) :
        (values.map Event.printed).filterMap Log.ofEvent? = [] := by
      simp [List.filterMap_map, Function.comp_def, Log.ofEvent?]
    simp only [closingRecord?, step_executed running fetched accepted, fetched,
      List.filterMap_cons, Log.ofEvent?_fetched, List.filterMap_append, silent]
    cases instruction <;> simp_all [Instruction.opcode] <;> rfl

theorem tellsEnd_of_mem_attemptRecord? {machine : Machine} {record : Log.Record}
    (member : record ∈ machine.attemptRecord?.toList) : record.tellsEnd = false := by
  obtain ⟨instruction, -, rfl⟩ := Option.map_eq_some_iff.mp (Option.mem_toList.mp member)
  exact Log.Record.tellsEnd_fetched _ _

/-- A step that leaves a record of the end of its machine is the last one of it. -/
theorem stops_of_tellsEnd {machine : Machine} {record : Log.Record}
    (member : record ∈ machine.records) (ends : record.tellsEnd = true) :
    Stops machine.step.result := by
  rcases List.mem_append.mp member with attempt | closing
  · rw [tellsEnd_of_mem_attemptRecord? attempt] at ends
    contradiction
  · have told := Option.mem_toList.mp closing
    unfold closingRecord? at told
    split at told
    · exact .inl ‹_›
    · cases told
    · exact .inr ⟨_, ‹_›⟩

theorem pairwise_records (machine : Machine) :
    machine.records.Pairwise Log.Record.MayPrecede := by
  have single (record : Option Log.Record) : record.toList.Pairwise Log.Record.MayPrecede := by
    cases record <;> simp
  refine List.pairwise_append.mpr ⟨single _, single _, ?_⟩
  intro earlier attempt later _ ends
  rw [tellsEnd_of_mem_attemptRecord? attempt] at ends
  contradiction

/-- The record of the instruction that a step executes. -/
def executedRecord? (machine : Machine) : Option Log.Record :=
  match machine.step.result with
  | .ok opcode => some (.fetched machine.counter (machine.instruction opcode))
  | .error _ => none

/-- Among the records of one step, it is the record of a fault that tells whether the instruction
was executed. -/
theorem carriedOut_records (machine : Machine) :
    carriedOut machine.records = machine.executedRecord?.toList := by
  cases made : machine.step.result with
  | error fault =>
    have closing : machine.closingRecord? = some (.faulted machine.counter fault) := by
      simp only [closingRecord?, made]
    rw [records, closing, executedRecord?, made]
    cases machine.attemptRecord? <;> simp [carriedOut]
  | ok opcode =>
    obtain ⟨-, instruction, rfl, fetched, -⟩ := step_eq_ok made
    obtain ⟨-, -, same⟩ := fetch_eq_ok_iff.mp fetched
    have attempt : machine.attemptRecord? = some (.fetched machine.counter instruction) := by
      rw [attemptRecord?, attempted?_eq_some_iff.mpr fetched]
      rfl
    simp only [records, attempt, closingRecord?, executedRecord?, made, ← same]
    cases instruction <;> simp [Instruction.opcode, carriedOut]

end Machine
end LS8
