import Mathlib.Data.List.Infix
import LS8.Proofs.Machine.Attempting
import LS8.Proofs.Machine.Printing
import LS8.Proofs.Machine.Writing

/-! Nested pushes and pops. Registers that are pushed one after the other and popped in the
opposite order are what they were: a push stores what its register then holds, and by the time
that byte is popped the registers are again as the push left them, so that each pop writes what is
there already and does no more than raise the stack pointer. R7 is no exception. -/
namespace LS8

/-- Writing to a register what it holds changes nothing. -/
theorem Registers.set_get (registers : Registers) (register : Register) :
    registers.set register (registers.get register) = registers := by
  apply ext_get
  intro other
  by_cases same : other = register
  · rw [same, get_set_same]
  · exact get_set_other registers _ same

theorem Registers.set_set (registers : Registers) (register : Register) (first second : UInt8) :
    (registers.set register first).set register second = registers.set register second := by
  simp [set]

/-- Bytes that stand in memory from an address on. -/
def Memory.HoldsAt (memory : Memory) (start : Nat) (bytes : List UInt8) : Prop :=
  bytes <+: memory.toList.drop start

namespace Memory

variable {memory other : Memory} {start : Nat} {bytes front back : List UInt8}

theorem holdsAt_append (holds : memory.HoldsAt start (front ++ back)) :
    memory.HoldsAt start front ∧ memory.HoldsAt (start + front.length) back := by
  refine ⟨(List.prefix_append front back).trans holds, ?_⟩
  have behind := holds.drop front.length
  rwa [List.drop_left, List.drop_drop] at behind

/-- Bytes stay where they are if all their cells do. -/
theorem HoldsAt.congr (holds : memory.HoldsAt start bytes)
    (same : ∀ cell : UInt8, start ≤ cell.toNat → cell.toNat < start + bytes.length →
      other.read cell = memory.read cell) : other.HoldsAt start bytes := by
  apply List.prefix_iff_getElem?.mpr
  intro index inside
  have stands := List.prefix_iff_getElem?.mp holds index inside
  rw [List.getElem?_drop] at stands ⊢
  have within : start + index < 256 := by
    rw [← memory.length_toList]
    exact (List.getElem?_eq_some_iff.mp stands).1
  have value : (UInt8.ofNat (start + index)).toNat = start + index :=
    UInt8.toNat_ofNat_of_lt' within
  have cell := same (UInt8.ofNat (start + index)) (by omega) (by omega)
  rw [← stands, ← value, getElem?_toList, getElem?_toList, cell]

end Memory

namespace Machine

theorem fetch_of_holdsAt {machine : Machine} {instruction : Instruction}
    (holds : machine.memory.HoldsAt machine.counter.toNat instruction.encode) :
    machine.fetch = .ok instruction := by
  have within : machine.counter.toNat < machine.memory.toList.length := by
    have length := holds.length_le
    rw [instruction.length_encode, Opcode.width, List.length_drop] at length
    omega
  have begun : machine.memory.toList.take machine.counter.toNat ++ (instruction.encode ++ []) <+:
      machine.memory.toList := by
    have joined := (List.prefix_append_right_inj
      (machine.memory.toList.take machine.counter.toNat)).mpr holds
    rwa [List.take_append_drop, ← List.append_nil instruction.encode] at joined
  refine fetch_of_prefix begun ?_
  rw [List.length_take, Nat.min_eq_left (Nat.le_of_lt within)]

section
variable {machine : Machine} {index : UInt8}

/-- What a push leaves: the stack pointer is lowered, and the cell that it then names holds what
the register then is, whichever register it is. -/
structure HoldsPushed (machine : Machine) (index : UInt8) (ended : Machine) : Prop where
  registers : ended.registers = machine.registers.setStackPointer (machine.stackPointer - 1)
  top : ended.top = ended.get (.named index)
  flags : ended.flags = machine.flags
  running : ended.halted = machine.halted
  advanced : ended.counter.toNat = machine.counter.toNat + 2
  kept : ∀ cell ≠ machine.stackPointer - 1, ended.memory.read cell = machine.memory.read cell

theorem HoldsPushed.stackPointer {ended : Machine} (pushed : machine.HoldsPushed index ended) :
    ended.stackPointer = machine.stackPointer - 1 := by
  rw [Machine.stackPointer, pushed.registers]
  exact Registers.get_set_same machine.registers .stackPointer _

/-- Code that the push does not write is there behind it. -/
theorem HoldsPushed.holdsAt {ended : Machine} (pushed : machine.HoldsPushed index ended)
    {bytes : List UInt8} (holds : machine.memory.HoldsAt (machine.counter.toNat + 2) bytes)
    (clear : (machine.stackPointer - 1).toNat < machine.counter.toNat + 2 ∨
      machine.counter.toNat + 2 + bytes.length ≤ (machine.stackPointer - 1).toNat) :
    ended.memory.HoldsAt ended.counter.toNat bytes := by
  rw [pushed.advanced]
  refine holds.congr fun cell low high => pushed.kept cell ?_
  rintro rfl
  omega

theorem step_push (running : machine.halted = false) (fetched : machine.fetch = .ok (.push index))
    (valid : ¬7 < index) (room : machine.stackPointer ≠ 0) :
    machine.step.result = .ok .push ∧ machine.HoldsPushed index machine.step.machine := by
  have accepted := Instruction.refusal?_push_eq_none_iff.mpr ⟨valid, room⟩
  have width : Opcode.width .push = 2 := by decide
  rw [step_executed running fetched accepted]
  refine ⟨rfl, rfl, ?_, rfl, rfl, ?_, ?_⟩
  · exact Memory.read_write_same _ _ _
  · exact (toNat_following fetched).trans (by rw [Instruction.opcode, width])
  · intro cell apart
    rw [← stackPointer_set machine (machine.stackPointer - 1)] at apart
    exact Memory.read_write_other _ _ apart

/-- A pop of what its register holds already does no more than raise the stack pointer. -/
theorem step_pop_same (running : machine.halted = false)
    (fetched : machine.fetch = .ok (.pop index)) (valid : ¬7 < index)
    (room : machine.stackPointer ≠ 255) (same : machine.top = machine.get (.named index)) :
    machine.step.result = .ok .pop ∧ machine.step.machine = { machine with
      registers := machine.registers.setStackPointer (machine.stackPointer + 1)
      counter := machine.following (.pop index) } := by
  have accepted : (Instruction.pop index).refusal? machine = none := by
    refine Instruction.refusal?_pop_eq_none_iff.mpr ⟨room, valid, ?_⟩
    rintro ⟨seven, last⟩
    rw [same, (Register.named_eq_stackPointer_iff valid).mpr seven, get_stackPointer] at last
    exact room last
  have unchanged : machine.set (.named index) machine.top = machine := by
    rw [same, Machine.set, Machine.get, Registers.set_get]
  rw [step_executed running fetched accepted]
  refine ⟨rfl, ?_⟩
  simp only [Instruction.next, Instruction.effect, unchanged]
  rfl

end

/-- The pushes of some registers and behind them their pops, the last pushed first. -/
def nested (indices : List UInt8) : List Instruction :=
  indices.map .push ++ indices.reverse.map .pop

def nestedCode (indices : List UInt8) : List UInt8 := (nested indices).flatMap Instruction.encode

theorem nested_cons (index : UInt8) (rest : List UInt8) :
    nested (index :: rest) = .push index :: (nested rest ++ [.pop index]) := by
  simp [nested]

theorem nestedCode_cons (index : UInt8) (rest : List UInt8) : nestedCode (index :: rest) =
    (Instruction.push index).encode ++ (nestedCode rest ++ (Instruction.pop index).encode) := by
  simp [nestedCode, nested_cons]

theorem length_encode_push_pop (index : UInt8) :
    (Instruction.push index).encode.length = 2 ∧ (Instruction.pop index).encode.length = 2 := by
  rw [Instruction.length_encode, Instruction.length_encode]
  change Opcode.width .push = 2 ∧ Opcode.width .pop = 2
  decide

theorem length_nestedCode (indices : List UInt8) :
    (nestedCode indices).length = 4 * indices.length := by
  induction indices with
  | nil => rfl
  | cons index rest ih =>
    obtain ⟨push, pop⟩ := length_encode_push_pop index
    rw [nestedCode_cons, List.length_append, List.length_append, push, pop, ih, List.length_cons]
    omega

/-- What is left when as many bytes have been popped as were pushed: the program counter has
moved and the cells just below the stack pointer, one for each byte, have been used. -/
structure Restores (machine : Machine) (depth : Nat) (ended : Machine) : Prop where
  registers : ended.registers = machine.registers
  flags : ended.flags = machine.flags
  running : ended.halted = machine.halted
  advanced : ended.counter.toNat = machine.counter.toNat + 4 * depth
  kept : ∀ cell : UInt8,
    cell.toNat + depth < machine.stackPointer.toNat ∨ machine.stackPointer.toNat ≤ cell.toNat →
    ended.memory.read cell = machine.memory.read cell

theorem Restores.holdsAt {machine ended : Machine} {depth : Nat}
    (restores : machine.Restores depth ended) {bytes : List UInt8}
    (holds : machine.memory.HoldsAt (machine.counter.toNat + 4 * depth) bytes)
    (clear : ∀ cell, machine.stackPointer.toNat ≤ cell + depth →
      cell < machine.stackPointer.toNat → cell < machine.counter.toNat + 4 * depth ∨
        machine.counter.toNat + 4 * depth + bytes.length ≤ cell) :
    ended.memory.HoldsAt ended.counter.toNat bytes := by
  rw [restores.advanced]
  refine holds.congr fun cell low high => restores.kept cell ?_
  have outside := clear cell.toNat
  omega

/-- A push, what gives back the machine that it left, and a pop of the same register. -/
theorem HoldsPushed.restores {machine inner outer : Machine} {index : UInt8} {depth : Nat}
    (pushed : machine.HoldsPushed index inner) (restores : inner.Restores depth outer)
    (running : machine.halted = false) (valid : ¬7 < index) (room : machine.stackPointer ≠ 0)
    (pops : outer.fetch = .ok (.pop index)) :
    outer.step.result = .ok .pop ∧ machine.Restores (depth + 1) outer.step.machine := by
  have lowered := toNat_eq_lowered room
  have small := machine.stackPointer.toNat_lt
  have pointer := pushed.stackPointer
  have same : outer.stackPointer = machine.stackPointer - 1 := by
    rw [← pointer]
    exact congrArg Registers.stackPointer restores.registers
  have below : outer.stackPointer ≠ 255 := by
    intro last
    rw [← same, last] at lowered
    change machine.stackPointer.toNat = 256 at lowered
    omega
  have top : outer.top = outer.get (.named index) := by
    have cell := restores.kept (machine.stackPointer - 1) (.inr (by rw [pointer]))
    rw [Machine.top, same, cell, ← pointer, Machine.get, restores.registers]
    exact pushed.top
  have live := restores.running.trans pushed.running
  obtain ⟨result, ended⟩ := step_pop_same (live.trans running) pops valid below top
  rw [ended]
  refine ⟨result, ?_, restores.flags.trans pushed.flags, live, ?_, ?_⟩
  · have raised : machine.stackPointer - 1 + 1 = machine.stackPointer := UInt8.sub_add_cancel _ _
    rw [same, raised, restores.registers, pushed.registers, Registers.setStackPointer,
      Registers.setStackPointer, Registers.set_set]
    exact Registers.set_get machine.registers .stackPointer
  · have width : Opcode.width .pop = 2 := by decide
    rw [toNat_following pops, restores.advanced, pushed.advanced, Instruction.opcode, width]
    omega
  · intro cell outside
    have unused : cell ≠ machine.stackPointer - 1 := by
      rintro rfl
      omega
    rw [← pushed.kept cell unused]
    exact restores.kept cell (by rw [pointer]; omega)

theorem stepped_nested {indices : List UInt8} {machine : Machine}
    (valid : ∀ index ∈ indices, ¬7 < index) (running : machine.halted = false)
    (holds : machine.memory.HoldsAt machine.counter.toNat (nestedCode indices))
    (deep : indices.length ≤ machine.stackPointer.toNat)
    (apart : ∀ cell, machine.stackPointer.toNat ≤ cell + indices.length →
      cell < machine.stackPointer.toNat →
      cell < machine.counter.toNat ∨ machine.counter.toNat + 4 * indices.length ≤ cell) :
    (stepped (2 * indices.length) machine).map (fun before => before.step.result) =
        (nested indices).map (fun instruction => .ok instruction.opcode) ∧
      machine.Restores indices.length (after (2 * indices.length) machine) := by
  induction indices generalizing machine with
  | nil => exact ⟨rfl, rfl, rfl, rfl, rfl, fun _ _ => rfl⟩
  | cons index rest ih =>
    obtain ⟨accepted, others⟩ := List.forall_mem_cons.mp valid
    rw [List.length_cons] at deep apart
    have room : machine.stackPointer ≠ 0 := by
      intro zero
      rw [zero] at deep
      exact absurd deep (Nat.not_succ_le_zero _)
    obtain ⟨push, pop⟩ := length_encode_push_pop index
    rw [nestedCode_cons] at holds
    obtain ⟨first, behind⟩ := Memory.holdsAt_append holds
    rw [push] at behind
    obtain ⟨pushes, pushed⟩ := step_push running (fetch_of_holdsAt first) accepted room
    have lowered := toNat_eq_lowered room
    have pointer := pushed.stackPointer
    have live := pushed.running.trans running
    -- none of the cells that the stack grows into is one of the code
    have still := pushed.holdsAt behind (by
      have clear := apart (machine.stackPointer - 1).toNat (by omega) (by omega)
      rw [List.length_append, length_nestedCode, pop]
      omega)
    obtain ⟨inside, last⟩ := Memory.holdsAt_append still
    rw [length_nestedCode] at last
    have innerApart : ∀ cell, machine.step.machine.stackPointer.toNat ≤ cell + rest.length →
        cell < machine.step.machine.stackPointer.toNat →
        cell < machine.step.machine.counter.toNat ∨
          machine.step.machine.counter.toNat + 4 * rest.length + 2 ≤ cell := by
      intro cell low high
      rw [pointer] at low high
      rw [pushed.advanced]
      have clear := apart cell (by omega) (by omega)
      omega
    obtain ⟨results, restores⟩ := ih others live inside (by rw [pointer]; omega)
      fun cell low high => (innerApart cell low high).imp_right (by omega)
    have pops : (after (2 * rest.length) machine.step.machine).fetch = .ok (.pop index) :=
      fetch_of_holdsAt (restores.holdsAt last fun cell low high => by
        have clear := innerApart cell low high
        rw [pop]
        omega)
    obtain ⟨popped, restored⟩ := pushed.restores restores running accepted room pops
    have count : 2 * (index :: rest).length = (2 * rest.length + 1) + 1 := by
      rw [List.length_cons]
      omega
    rw [count, after_succ, after_succ_last, stepped_running running, List.map_cons, pushes,
      stepped_add, List.map_append, results, nested_cons]
    refine ⟨?_, restored⟩
    rw [stepped_running (restores.running.trans live)]
    simp [popped, Instruction.opcode, stepped, attempts]

/-- Nested pushes and pops give back all registers, R7 among them, whichever of them are pushed and
however often. Each step succeeds and none prints anything, and of memory only the cells that the
stack grew into are touched. -/
theorem nested_restores {indices : List UInt8} {machine : Machine}
    (valid : ∀ index ∈ indices, index < 8) (running : machine.halted = false)
    (holds : machine.memory.HoldsAt machine.counter.toNat (nestedCode indices))
    (deep : indices.length ≤ machine.stackPointer.toNat)
    (apart : ∀ cell, machine.stackPointer.toNat - indices.length ≤ cell →
      cell < machine.stackPointer.toNat →
      cell < machine.counter.toNat ∨ machine.counter.toNat + 4 * indices.length ≤ cell) :
    let steps := stepped (2 * indices.length) machine
    let ended := after (2 * indices.length) machine
    steps.map (fun before => before.step.result) =
        List.replicate indices.length (.ok .push) ++ List.replicate indices.length (.ok .pop) ∧
      ended.registers = machine.registers ∧ ended.flags = machine.flags ∧ ended.halted = false ∧
      printedIn (steps.flatMap fun before => before.step.events) = [] ∧
      ended.counter.toNat = machine.counter.toNat + 4 * indices.length ∧
      ∀ cell : UInt8, ended.memory.read cell ≠ machine.memory.read cell →
        machine.stackPointer.toNat - indices.length ≤ cell.toNat ∧
          cell.toNat < machine.stackPointer.toNat := by
  dsimp only
  have accepted : ∀ index ∈ indices, ¬7 < index := fun index member =>
    (Register.toNat_lt_iff index).mp (UInt8.lt_iff_toNat_lt.mp (valid index member))
  obtain ⟨results, restores⟩ := stepped_nested accepted running holds deep
    fun cell low high => apart cell (by omega) high
  have succeed : (nested indices).map
        (fun instruction => (.ok instruction.opcode : Except Fault Opcode)) =
      List.replicate indices.length (.ok .push) ++ List.replicate indices.length (.ok .pop) := by
    simp [nested, Instruction.opcode, Function.comp_def]
  rw [succeed] at results
  refine ⟨results, restores.registers, restores.flags, restores.running.trans running, ?_,
    restores.advanced, ?_⟩
  · rw [printedIn_stepped, filterMap_prints?_eq_nil_iff, results]
    simp
  · intro cell changed
    have outside := mt (restores.kept cell) changed
    omega

/-- A machine about to push R0 and then R7 twice, and to pop them again. -/
def nesting : Machine :=
  let code : List (UInt8 × UInt8) := [(0, 0x45), (1, 0x00), (2, 0x45), (3, 0x07), (4, 0x45),
    (5, 0x07), (6, 0x46), (7, 0x07), (8, 0x46), (9, 0x07), (10, 0x46), (11, 0x00)]
  code.foldl (fun machine cell => machine.store cell.1 cell.2) (fresh.set (.named 0) 42)

theorem nested_restores_nesting :
    (after 6 nesting).registers = nesting.registers ∧ (after 6 nesting).counter.toNat = 12 ∧
    (after 6 nesting).memory.read 0xf3 = 42 ∧
    ∀ cell : UInt8, (after 6 nesting).memory.read cell ≠ nesting.memory.read cell →
      0xf1 ≤ cell.toNat ∧ cell.toNat < 0xf4 := by
  have holds : nesting.memory.HoldsAt nesting.counter.toNat (nestedCode [0, 7, 7]) := by
    rw [Memory.HoldsAt, ← List.isPrefixOf_iff_prefix]
    decide +kernel
  have pointer : nesting.stackPointer.toNat = 0xf4 := by decide +kernel
  have valid : ∀ index ∈ ([0, 7, 7] : List UInt8), index < 8 := by decide +kernel
  obtain ⟨-, registers, -, -, -, counter, memory⟩ := nested_restores valid rfl holds
    (by rw [pointer]; decide)
    (by
      intro cell low high
      change _ ∨ 12 ≤ cell
      rw [pointer] at low
      change 0xf4 - 3 ≤ cell at low
      omega)
  rw [pointer] at memory
  exact ⟨registers, counter, by decide +kernel, memory⟩

end Machine
end LS8
