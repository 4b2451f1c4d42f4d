import Mathlib.Data.Set.Defs
import LS8.Proofs.Machine.Writing

/-! What a run reads. A step looks at the bytes of its instruction, no more of them than the
opcode takes, and a pop or a return at the byte on top of the stack; it sees no other cell. So
machines that differ in other cells only go through the same run, and where they differ they
come to agree as soon as something is pushed there. -/
namespace LS8

namespace Instruction

/-- The cell whose byte an instruction takes off the stack, if nothing refuses it before. -/
def popped? (machine : Machine) : Instruction → Option UInt8
  | pop a =>
    if machine.stackPointer = 255 ∨ 7 < a then none
    else some machine.stackPointer
  | ret =>
    if machine.stackPointer = 255 then none
    else some machine.stackPointer
  | hlt | ldi _ _ | prn _ | mul _ _ | add _ _ | cmp _ _ | push _ | call _ | jmp _ | jeq _
  | jne _ => none

end Instruction

namespace Machine

/-- The bytes from the program counter on that a step fetches. If the first of them is no opcode,
it is the only one. -/
def extent (machine : Machine) : Nat :=
  match Opcode.ofByte? (machine.memory.read machine.counter.toUInt8) with
  | some opcode => opcode.width
  | none => 1

/-- The next step fetches its opcode, or an operand that the opcode takes, from a cell. -/
def Fetches (machine : Machine) (cell : UInt8) : Prop :=
  machine.counter.toNat ≤ cell.toNat ∧ cell.toNat < machine.counter.toNat + machine.extent

/-- The cell from which the next step takes a byte off the stack. -/
def popped? (machine : Machine) : Option UInt8 :=
  machine.fetch.toOption.bind (Instruction.popped? machine)

/-- The next step looks at a cell. -/
def Reads (machine : Machine) (cell : UInt8) : Prop :=
  machine.halted = false ∧ (machine.Fetches cell ∨ machine.popped? = some cell)

instance (machine : Machine) (cell : UInt8) : Decidable (machine.Fetches cell) :=
  inferInstanceAs (Decidable (_ ∧ _))

instance (machine : Machine) (cell : UInt8) : Decidable (machine.Reads cell) :=
  inferInstanceAs (Decidable (_ ∧ _))

/-- Machines that differ in nothing but cells of a set. -/
structure AlikeBut (apart : Set UInt8) (first second : Machine) : Prop where
  counter : first.counter = second.counter
  registers : first.registers = second.registers
  flags : first.flags = second.flags
  halted : first.halted = second.halted
  cells : ∀ cell, cell ∉ apart → first.memory.read cell = second.memory.read cell

theorem AlikeBut.mono {fewer more : Set UInt8} {first second : Machine}
    (alike : AlikeBut fewer first second) (within : ∀ cell ∈ fewer, cell ∈ more) :
    AlikeBut more first second :=
  { alike with cells := fun cell outside => alike.cells cell (mt (within cell) outside) }

/-- Of machines that are alike, one is the other with another memory. -/
theorem AlikeBut.eq_with {apart : Set UInt8} {first second : Machine}
    (alike : AlikeBut apart first second) : second = { first with memory := second.memory } := by
  obtain ⟨counter, registers, flags, halted, -⟩ := alike
  cases first
  cases second
  simp_all

theorem alikeBut_store (machine : Machine) (cell value : UInt8) :
    AlikeBut {cell} machine (machine.store cell value) where
  counter := rfl
  registers := rfl
  flags := rfl
  halted := rfl
  cells := fun _ other => (Memory.read_write_other _ _ other).symm

end Machine

section Replaced

/-! The same machine with another memory. -/

variable {machine : Machine} {memory : Memory}

namespace Machine

/-- The instruction fetched is made of the bytes it takes. -/
theorem fetch_replaced
    (same : ∀ cell, machine.Fetches cell → machine.memory.read cell = memory.read cell) :
    fetch { machine with memory } = machine.fetch := by
  rw [fetch_eq, fetch_eq]
  by_cases outside : 256 ≤ machine.counter.toNat
  · simp only [outside, if_true]
  have near (offset : UInt16) (taken : offset.toNat < machine.extent)
      (inside : machine.counter.toNat + offset.toNat < 256) :
      machine.memory.read (machine.counter + offset).toUInt8 =
        memory.read (machine.counter + offset).toUInt8 := by
    have address : (machine.counter + offset).toUInt8.toNat =
        machine.counter.toNat + offset.toNat := by
      rw [UInt16.toNat_toUInt8, UInt16.toNat_add]
      omega
    apply same
    constructor <;> omega
  have some_extent : 0 < machine.extent := by
    unfold extent
    split
    · exact Nat.succ_pos _
    · exact Nat.one_pos
  have first := near 0 some_extent (Nat.not_le.mp outside)
  rw [UInt16.add_zero] at first
  simp only [outside, if_false, ← first]
  cases decoded : Opcode.ofByte? (machine.memory.read machine.counter.toUInt8) with
  | none => rfl
  | some opcode =>
    have extent : machine.extent = opcode.operandCount + 1 := by
      simp only [extent, decoded, Opcode.width]
    dsimp only
    split
    · rfl
    · rename_i inside
      apply congrArg Except.ok
      apply Instruction.ofOperands_congr
      · intro taken
        exact (near 1 (by rw [extent]; exact Nat.lt_succ_of_le taken) (by
          have one : (1 : UInt16).toNat = 1 := rfl
          omega)).symm
      · intro taken
        exact (near 2 (by rw [extent]; exact Nat.lt_succ_of_le taken) (by
          have two : (2 : UInt16).toNat = 2 := rfl
          omega)).symm

end Machine

namespace Instruction

variable {instruction : Instruction}

/-- A pop is refused on account of the byte it takes only if it has come to take it. -/
theorem refusal?_replaced
    (same : ∀ cell, instruction.popped? machine = some cell →
      machine.memory.read cell = memory.read cell) :
    instruction.refusal? { machine with memory } = instruction.refusal? machine := by
  cases instruction
  case pop a =>
    have pointer : Machine.stackPointer { machine with memory } = machine.stackPointer := rfl
    by_cases stopped : machine.stackPointer = 255 ∨ 7 < a
    · rcases stopped with empty | above
      · simp [refusal?, pointer, empty]
      · simp [refusal?, pointer, above]
    · have top : Machine.top { machine with memory } = machine.top :=
        (same machine.stackPointer (if_neg stopped)).symm
      simp only [refusal?, pointer, top]
  all_goals rfl

/-- A pop or a return that is not refused takes the byte on top of the stack. -/
theorem popped?_of_accepted (takes : instruction.opcode = .pop ∨ instruction.opcode = .ret)
    (accepted : instruction.refusal? machine = none) :
    instruction.popped? machine = some machine.stackPointer := by
  cases instruction
  case pop a =>
    obtain ⟨room, low, -⟩ := refusal?_pop_eq_none_iff.mp accepted
    exact if_neg (not_or.mpr ⟨room, low⟩)
  case ret => exact if_neg (refusal?_ret_eq_none_iff.mp accepted)
  all_goals rcases takes with opcode | opcode <;> cases opcode

/-- What is written does not hang on the memory it is written to. -/
theorem read_next_replaced {cell : UInt8} (writes : instruction.written? machine = some cell) :
    (instruction.next machine).memory.read cell =
      (instruction.next { machine with memory }).memory.read cell := by
  cases instruction
  case push a | call a =>
    obtain rfl := Option.some.inj writes
    simp only [next, effect, Machine.store, Machine.stackPointer_set]
    exact (Memory.read_write_same _ _ _).trans
      (Memory.read_write_same memory (machine.stackPointer - 1) _).symm
  all_goals cases writes

/-- An instruction keeps machines alike, and makes them agree on the cell it writes. -/
theorem alikeBut_next {apart : Set UInt8}
    (alike : ∀ cell, cell ∉ apart → machine.memory.read cell = memory.read cell)
    (accepted : instruction.refusal? machine = none)
    (same : ∀ cell, instruction.popped? machine = some cell →
      machine.memory.read cell = memory.read cell) :
    Machine.AlikeBut {cell | cell ∈ apart ∧ instruction.written? machine ≠ some cell}
      (instruction.next machine) (instruction.next { machine with memory }) := by
  have top (takes : instruction.opcode = .pop ∨ instruction.opcode = .ret) :
      machine.top = Machine.top { machine with memory } :=
    same machine.stackPointer (popped?_of_accepted takes accepted)
  refine ⟨?_, ?_, ?_, ?_, ?_⟩
  · cases instruction
    case ret => exact congrArg UInt8.toUInt16 (top (.inr rfl))
    all_goals rfl
  · cases instruction
    case pop a =>
      simp only [next, effect, ← top (.inl rfl)]
      rfl
    all_goals rfl
  · cases instruction <;> rfl
  · cases instruction <;> rfl
  · intro cell outside
    by_cases writes : instruction.written? machine = some cell
    · exact read_next_replaced writes
    · have other : instruction.written? { machine with memory } ≠ some cell := by
        cases instruction <;> exact writes
      rw [read_next writes, read_next other]
      exact alike cell fun inside => outside ⟨inside, writes⟩

end Instruction
end Replaced

namespace Machine

/-- A step that faults pushes nothing, so that machines differ after it where they did. -/
theorem AlikeBut.of_error {apart : Set UInt8} {first second : Machine} {fault : Fault}
    (alike : AlikeBut apart first second) (faulted : first.step.result = .error fault) :
    AlikeBut {cell | cell ∈ apart ∧ ¬first.PushesOnto cell} first second :=
  alike.mono fun _ inside => ⟨inside, not_pushesOnto_of_error faulted⟩

/-- Machines that differ only where a step does not look make the same step, and no longer
differ where it pushes. -/
theorem AlikeBut.step {apart : Set UInt8} {first second : Machine}
    (alike : AlikeBut apart first second) (unread : ∀ cell ∈ apart, ¬first.Reads cell) :
    first.step.result = second.step.result ∧ first.step.events = second.step.events ∧
      AlikeBut {cell | cell ∈ apart ∧ ¬first.PushesOnto cell}
        first.step.machine second.step.machine := by
  by_cases halted : first.halted = true
  · have kept := alike.of_error (congrArg Attempt.result (step_halted halted))
    rw [step_halted halted, step_halted (alike.halted ▸ halted)]
    exact ⟨rfl, rfl, kept⟩
  have running := Bool.eq_false_iff.mpr halted
  have running' : second.halted = false := alike.halted ▸ running
  have same (cell : UInt8) (reads : first.Reads cell) :
      first.memory.read cell = second.memory.read cell :=
    alike.cells cell fun inside => unread cell inside reads
  have fetch : second.fetch = first.fetch := by
    rw [alike.eq_with]
    exact fetch_replaced fun cell fetches => same cell ⟨running, .inl fetches⟩
  cases fetched : first.fetch with
  | error fault =>
    have attempt := step_unfetched running fetched
    have attempt' := step_unfetched running' (fetch.trans fetched)
    have kept := alike.of_error (congrArg Attempt.result attempt)
    rw [attempt, attempt']
    refine ⟨rfl, ?_, { kept with halted := rfl }⟩
    simp only [alike.counter]
  | ok instruction =>
    have fetched' := fetch.trans fetched
    have popped (cell : UInt8) (pops : instruction.popped? first = some cell) :
        first.memory.read cell = second.memory.read cell := by
      apply same cell
      refine ⟨running, .inr ?_⟩
      rw [popped?, fetched]
      exact pops
    have refusal' : instruction.refusal? second = instruction.refusal? first := by
      rw [alike.eq_with]
      exact Instruction.refusal?_replaced popped
    cases refusal : instruction.refusal? first with
    | some cause =>
      have attempt := step_refused running fetched refusal
      have attempt' := step_refused running' fetched' (refusal'.trans refusal)
      have kept := alike.of_error (congrArg Attempt.result attempt)
      rw [attempt, attempt']
      refine ⟨rfl, ?_, { kept with halted := rfl }⟩
      simp only [alike.counter]
    | none =>
      have next := Instruction.alikeBut_next alike.cells refusal popped
      rw [← alike.eq_with] at next
      have printed : instruction.printed second = instruction.printed first := by
        rw [alike.eq_with]
        cases instruction <;> rfl
      simp only [pushesOnto_iff running fetched refusal]
      rw [step_executed running fetched refusal,
        step_executed running' fetched' (refusal'.trans refusal)]
      refine ⟨rfl, ?_, next⟩
      simp only [printed, next.halted, alike.counter]

/-- The cells of a set onto which no step of a run has pushed. -/
def unwritten (apart : Set UInt8) (limit : Nat) (machine : Machine) : Set UInt8 :=
  {cell | cell ∈ apart ∧ ∀ before ∈ stepped limit machine, ¬before.PushesOnto cell}

theorem mem_unwritten_succ {apart : Set UInt8} {limit : Nat} {machine : Machine} {cell : UInt8}
    (inside : cell ∈ unwritten apart limit machine)
    (last : ¬(after limit machine).PushesOnto cell) :
    cell ∈ unwritten apart (limit + 1) machine := by
  refine ⟨inside.1, ?_⟩
  intro before member
  obtain ⟨index, bound, reached, running⟩ := mem_stepped_iff.mp member
  rcases Nat.lt_succ_iff_lt_or_eq.mp bound with earlier | same
  · exact inside.2 before (mem_stepped_iff.mpr ⟨index, earlier, reached, running⟩)
  · rw [← reached, same]
    exact last

/-- Machines that differ only where a run does not look, unless it has pushed there, go through
the same run. -/
theorem AlikeBut.after {apart : Set UInt8} {first second : Machine} {limit : Nat}
    (alike : AlikeBut apart first second)
    (unread : ∀ index < limit, ∀ cell ∈ unwritten apart index first,
      ¬(after index first).Reads cell) :
    AlikeBut (unwritten apart limit first) (after limit first) (after limit second) := by
  induction limit with
  | zero => exact alike.mono fun cell inside => ⟨inside, fun _ member => nomatch member⟩
  | succ limit ih =>
    have earlier := ih fun index bound => unread index (Nat.lt_succ_of_lt bound)
    obtain ⟨-, -, later⟩ := earlier.step (unread limit (Nat.lt_succ_self limit))
    rw [after_succ_last, after_succ_last]
    exact later.mono fun cell inside => mem_unwritten_succ inside.1 inside.2

/-- A byte behind those that make an instruction is no part of it. If it is not on top of the stack
either, then no step comes out otherwise on its account. -/
theorem step_store_behind (machine : Machine) {cell : UInt8} (value : UInt8)
    (behind : machine.counter.toNat + machine.extent ≤ cell.toNat) :
    (machine.store cell value).fetch = machine.fetch ∧
    (machine.popped? ≠ some cell →
      machine.step.result = (machine.store cell value).step.result ∧
      machine.step.events = (machine.store cell value).step.events ∧
      AlikeBut {cell} machine.step.machine (machine.store cell value).step.machine) := by
  have unfetched : ¬machine.Fetches cell := fun fetches => Nat.not_lt.mpr behind fetches.2
  constructor
  · apply fetch_replaced
    intro other fetches
    have distinct : other ≠ cell := fun same => unfetched (same ▸ fetches)
    exact (Memory.read_write_other _ _ distinct).symm
  · intro unpopped
    obtain ⟨result, events, alike⟩ := (alikeBut_store machine cell value).step (by
      rintro other rfl ⟨-, fetches | pops⟩
      · exact unfetched fetches
      · exact unpopped pops)
    exact ⟨result, events, alike.mono fun _ inside => inside.1⟩

/-- A run depends on the cells that it reads, and on no others: where machines differ only in cells
that the run of the first does not look at before it has pushed there, each step of both comes to
the same result with the same events, and so with the same values printed and the same records.
The bytes behind an instruction are not among the cells that a step fetches. -/
theorem run_depends_on_reads {apart : Set UInt8} {first second : Machine} {limit : Nat}
    (alike : AlikeBut apart first second)
    (unread : ∀ index < limit, ∀ cell ∈ unwritten apart index first,
      ¬(after index first).Reads cell) :
    (∀ index < limit,
      (after index first).step.result = (after index second).step.result ∧
      (after index first).step.events = (after index second).step.events) ∧
    (∀ index ≤ limit,
      AlikeBut (unwritten apart index first) (after index first) (after index second)) ∧
    (∀ (machine : Machine) (cell value : UInt8),
      machine.counter.toNat + machine.extent ≤ cell.toNat →
      (machine.store cell value).fetch = machine.fetch ∧
      (machine.popped? ≠ some cell →
        machine.step.result = (machine.store cell value).step.result ∧
        machine.step.events = (machine.store cell value).step.events ∧
        AlikeBut {cell} machine.step.machine (machine.store cell value).step.machine)) := by
  have reached (index : Nat) (within : index ≤ limit) :
      AlikeBut (unwritten apart index first) (after index first) (after index second) :=
    alike.after fun earlier bound => unread earlier (Nat.lt_of_lt_of_le bound within)
  refine ⟨?_, reached, fun machine cell value => step_store_behind machine value⟩
  intro index bound
  obtain ⟨result, events, -⟩ := (reached index (Nat.le_of_lt bound)).step (unread index bound)
  exact ⟨result, events⟩

/-- A machine about to push a byte, to pop it into another register and to halt. -/
def echoing : Machine :=
  let code : List (UInt8 × UInt8) := [(0, 0x45), (1, 0x00), (2, 0x46), (3, 0x01), (4, 0x01)]
  code.foldl (fun machine cell => machine.store cell.1 cell.2) fresh

/-- The same machine with other bytes behind its program and below its stack. -/
def echoingLittered : Machine := (echoing.store 5 0xff).store 0xf3 0x2a

theorem run_depends_on_reads_littered :
    AlikeBut {5, 0xf3} echoing echoingLittered ∧
    echoing.memory.read 0xf3 ≠ echoingLittered.memory.read 0xf3 ∧
    (after 2 echoing).step.result = (after 2 echoingLittered).step.result ∧
    (after 2 echoing).step.events = (after 2 echoingLittered).step.events ∧
    AlikeBut (unwritten {5, 0xf3} 3 echoing) (after 3 echoing) (after 3 echoingLittered) := by
  have alike : AlikeBut {5, 0xf3} echoing echoingLittered := by
    refine ⟨rfl, rfl, rfl, rfl, ?_⟩
    intro cell outside
    obtain ⟨behind, below⟩ := not_or.mp outside
    exact ((Memory.read_write_other _ _ below).trans (Memory.read_write_other _ _ behind)).symm
  have pushes : echoing.PushesOnto 0xf3 := ⟨.inl rfl, by decide +kernel⟩
  have behind : ∀ index < 3, ¬(after index echoing).Reads 5 := by decide +kernel
  -- what was below the stack is looked at only by the pop, and by then something was pushed there
  have below : ∀ index < 3, (after index echoing).Reads 0xf3 → 0 < index := by decide +kernel
  have unread : ∀ index < 3, ∀ cell ∈ unwritten {5, 0xf3} index echoing,
      ¬(after index echoing).Reads cell := by
    rintro index bound cell ⟨rfl | rfl, unpushed⟩ reads
    · exact behind index bound reads
    · exact unpushed echoing (mem_stepped_iff.mpr ⟨0, below index bound reads, rfl, rfl⟩) pushes
  obtain ⟨told, reached, -⟩ := run_depends_on_reads alike unread
  obtain ⟨result, events⟩ := told 2 (by decide)
  exact ⟨alike, by decide +kernel, result, events, reached 3 (Nat.le_refl 3)⟩

end Machine
end LS8
