import LS8.Proofs.Machine.Refusal
import LS8.Proofs.Machine.Stepping
import Mathlib.Logic.Function.Basic

/-! Effects of a step. What a machine holds is laid out as plain numbers, and the instruction table
is given once more on these, without any of the operations by which a machine is looked at
or changed. When a step succeeds, what is held afterwards is in every part what the row of its
opcode says, operands that name the same register or the stack pointer included, and what it
prints is what the row prints. -/
namespace LS8

open Function (update)

@[simp] theorem printedIn_map_printed (values : List UInt8) :
    printedIn (values.map .printed) = values := by
  simp [printedIn, List.filterMap_map, Function.comp_def, Event.printed?]

@[simp] theorem printedIn_fetched (counter : UInt16) (instruction : Instruction)
    (events : List Event) :
    printedIn (.fetched counter instruction :: events) = printedIn events := rfl

/-- All that a machine holds, as numbers: the registers by index, the cells by address, the
three bits of the flags as one byte, and the program counter. -/
structure Contents where
  register : Nat → UInt8
  cell : Nat → UInt8
  flags : UInt8
  counter : Nat
  halted : Bool

/-- What a machine holds. Past the last register and the last cell there is nothing but zeros. -/
def Machine.contents (machine : Machine) : Contents where
  register index := machine.registers.values[index]?.getD 0
  cell address := machine.memory.cells[address]?.getD 0
  flags := machine.flags.bits
  counter := machine.counter.toNat
  halted := machine.halted

namespace Contents

/-- The instruction table, one row for each mnemonic: what is held after an instruction with
the operand bytes `a` and `b`, of which a row looks at those that it takes. -/
def after (before : Contents) (a b : UInt8) : Opcode → Contents
  | .hlt => { before with halted := true, counter := before.counter + 1 }
  | .ldi =>
    { before with
      register := update before.register a.toNat b
      counter := before.counter + 3 }
  | .prn => { before with counter := before.counter + 2 }
  | .mul =>
    { before with
      register := update before.register a.toNat
        (before.register a.toNat * before.register b.toNat)
      counter := before.counter + 3 }
  | .add =>
    { before with
      register := update before.register a.toNat
        (before.register a.toNat + before.register b.toNat)
      counter := before.counter + 3 }
  | .cmp =>
    { before with
      flags :=
        if before.register a.toNat = before.register b.toNat then 1
        else if before.register b.toNat < before.register a.toNat then 2
        else 4
      counter := before.counter + 3 }
  | .push =>
    let register := update before.register 7 (before.register 7 - 1)
    { before with
      register
      cell := update before.cell (register 7).toNat (register a.toNat)
      counter := before.counter + 2 }
  | .pop =>
    let register := update before.register a.toNat (before.cell (before.register 7).toNat)
    { before with
      register := update register 7 (register 7 + 1)
      counter := before.counter + 2 }
  | .call =>
    let register := update before.register 7 (before.register 7 - 1)
    { before with
      register
      cell := update before.cell (register 7).toNat (UInt8.ofNat (before.counter + 2))
      counter := (before.register a.toNat).toNat }
  | .ret =>
    { before with
      register := update before.register 7 (before.register 7 + 1)
      counter := (before.cell (before.register 7).toNat).toNat }
  | .jmp => { before with counter := (before.register a.toNat).toNat }
  | .jeq =>
    { before with
      counter :=
        if before.flags &&& 1 = 0 then before.counter + 2
        else (before.register a.toNat).toNat }
  | .jne =>
    { before with
      counter :=
        if before.flags &&& 1 = 0 then (before.register a.toNat).toNat
        else before.counter + 2 }

/-- What is printed: the register that PRN names, and otherwise nothing. -/
def printed (before : Contents) (a : UInt8) : Opcode → List UInt8
  | .prn => [before.register a.toNat]
  | _ => []

/-- A row does not look at an operand byte that its opcode does not take. -/
theorem after_congr (before : Contents) {opcode : Opcode} {a a' b b' : UInt8}
    (first : 1 ≤ opcode.operandCount → a = a') (second : 2 ≤ opcode.operandCount → b = b') :
    before.after a b opcode = before.after a' b' opcode := by
  cases opcode <;> simp_all [after, Opcode.operandCount_eq]

theorem printed_congr (before : Contents) {opcode : Opcode} {a a' : UInt8}
    (first : 1 ≤ opcode.operandCount → a = a') :
    before.printed a opcode = before.printed a' opcode := by
  cases opcode <;> simp_all [printed, Opcode.operandCount_eq]

/-- Only calls, returns and jumps that are taken do not go on behind the instruction. -/
theorem counter_after (before : Contents) (a b : UInt8) (opcode : Opcode) :
    (before.after a b opcode).counter = before.counter + opcode.operandCount + 1 ∨
      opcode = .call ∨ opcode = .ret ∨ opcode = .jmp ∨
      (opcode = .jeq ∧ before.flags &&& 1 ≠ 0) ∨ (opcode = .jne ∧ before.flags &&& 1 = 0) := by
  rw [Opcode.operandCount_eq]
  cases opcode
  case jeq | jne => by_cases unequal : before.flags &&& 1 = 0 <;> simp [after, unequal]
  all_goals simp [after]

end Contents

namespace Machine

variable (machine : Machine)

/-- A machine is nothing but what it holds. -/
theorem contents_injective {first second : Machine} (same : first.contents = second.contents) :
    first = second := by
  obtain ⟨⟨cells⟩, ⟨values⟩, counter, ⟨bits⟩, halted⟩ := first
  obtain ⟨⟨cells'⟩, ⟨values'⟩, counter', ⟨bits'⟩, halted'⟩ := second
  simp only [contents, Contents.mk.injEq, UInt16.toNat_inj] at same
  obtain ⟨registers, memory, rfl, rfl, rfl⟩ := same
  obtain rfl : cells = cells' := by
    apply Vector.ext
    intro index bound
    simpa [bound] using congrFun memory index
  obtain rfl : values = values' := by
    apply Vector.ext
    intro index bound
    simpa [bound] using congrFun registers index
  rfl

theorem read_eq (address : UInt8) :
    machine.memory.read address = machine.contents.cell address.toNat := by
  simp [Memory.read, contents, address.toNat_lt]

theorem get_eq (register : Register) :
    machine.get register = machine.contents.register register.val := by
  simp [get, Registers.get, contents]

theorem stackPointer_eq : machine.stackPointer = machine.contents.register 7 :=
  machine.get_eq .stackPointer

theorem top_eq : machine.top = machine.contents.cell (machine.contents.register 7).toNat := by
  rw [top, read_eq, stackPointer_eq]

theorem contents_set (register : Register) (value : UInt8) :
    (machine.set register value).contents =
      { machine.contents with
        register := update machine.contents.register register.val value } := by
  have registers : (machine.set register value).contents.register =
      update machine.contents.register register.val value := by
    funext index
    by_cases same : index = register.val
    · simp [same, contents, set, Registers.set]
    · simp [same, contents, set, Registers.set, Vector.getElem?_set, Ne.symm same]
  rw [← registers]
  rfl

theorem contents_store (address value : UInt8) :
    (machine.store address value).contents =
      { machine.contents with
        cell := update machine.contents.cell address.toNat value } := by
  have cells : (machine.store address value).contents.cell =
      update machine.contents.cell address.toNat value := by
    funext index
    by_cases same : index = address.toNat
    · simp [same, contents, store, Memory.write, address.toNat_lt]
    · simp [same, contents, store, Memory.write, Vector.getElem?_set, Ne.symm same]
  rw [← cells]
  rfl

variable {machine} {instruction : Instruction}

/-- An instruction that is not refused does what its row says, the program counter apart. -/
theorem contents_effect (accepted : instruction.refusal? machine = none) :
    (instruction.effect machine).contents =
      { machine.contents.after (instruction.operandAt 0) (instruction.operandAt 1)
          instruction.opcode with
        counter := machine.counter.toNat } := by
  have registers := Instruction.registers_accepted accepted
  cases instruction
  case hlt | prn | jmp | jeq | jne => rfl
  case ldi a value =>
    have low := registers a (List.mem_singleton_self a)
    simp only [Instruction.effect, contents_set, Register.val_named low]
    rfl
  case mul a b | add a b =>
    have low := registers a List.mem_cons_self
    have low' := registers b (List.mem_cons_of_mem a List.mem_cons_self)
    simp only [Instruction.effect, get_eq, contents_set, Register.val_named low, Register.val_named low']
    rfl
  case cmp a b =>
    have low := registers a List.mem_cons_self
    have low' := registers b (List.mem_cons_of_mem a List.mem_cons_self)
    simp only [Instruction.effect, get_eq, Register.val_named low, Register.val_named low']
    rfl
  case push a =>
    have low := registers a (List.mem_singleton_self a)
    simp only [Instruction.effect, get_eq, stackPointer_eq, contents_store, contents_set,
      Register.val_named low]
    rfl
  case pop a =>
    have low := registers a (List.mem_singleton_self a)
    simp only [Instruction.effect, top_eq, stackPointer_eq, contents_set, Register.val_named low]
    rfl
  case call a =>
    have address : (machine.counter + 2).toUInt8 = UInt8.ofNat (machine.counter.toNat + 2) := by
      rw [← UInt8.toNat_inj, UInt16.toNat_toUInt8, UInt16.toNat_add, UInt8.toNat_ofNat']
      change (machine.counter.toNat + 2) % 65536 % 256 = (machine.counter.toNat + 2) % 256
      omega
    simp only [Instruction.effect, stackPointer_eq, contents_store, contents_set, address]
    rfl
  case ret =>
    simp only [Instruction.effect, stackPointer_eq, contents_set]
    rfl

/-- The equal bit of the flags is the lowest one. -/
theorem isEqual_iff : machine.flags.isEqual = true ↔ machine.contents.flags &&& 1 ≠ 0 := by
  simp [Flags.isEqual, Flags.equalBit, contents]

/-- An instruction that is not refused goes on where its row says. -/
theorem toNat_target (fetched : machine.fetch = .ok instruction)
    (accepted : instruction.refusal? machine = none) :
    (instruction.target machine).toNat =
      (machine.contents.after (instruction.operandAt 0) (instruction.operandAt 1)
        instruction.opcode).counter := by
  have registers := Instruction.registers_accepted accepted
  have following := toNat_following fetched
  rw [Opcode.width, Opcode.operandCount_eq] at following
  cases instruction
  case hlt | ldi | prn | mul | add | cmp | push | pop => exact following
  case call a | jmp a =>
    have low := registers a (List.mem_singleton_self a)
    simp only [Instruction.target, get_eq, UInt8.toNat_toUInt16, Register.val_named low]
    rfl
  case ret =>
    simp only [Instruction.target, top_eq, UInt8.toNat_toUInt16]
    rfl
  case jeq a | jne a =>
    have low := registers a (List.mem_singleton_self a)
    simp only [Instruction.target, get_eq, isEqual_iff, ne_eq, ite_not, apply_ite UInt16.toNat,
      UInt8.toNat_toUInt16, following, Register.val_named low]
    rfl

/-- An instruction that is not refused does what its row of the table says. -/
theorem contents_next (fetched : machine.fetch = .ok instruction)
    (accepted : instruction.refusal? machine = none) :
    (instruction.next machine).contents =
      machine.contents.after (instruction.operandAt 0) (instruction.operandAt 1)
        instruction.opcode := by
  calc (instruction.next machine).contents
      = { (instruction.effect machine).contents with
          counter := (instruction.target machine).toNat } := rfl
    _ = _ := by rw [contents_effect accepted, toNat_target fetched accepted]

theorem printed_eq (accepted : instruction.refusal? machine = none) :
    instruction.printed machine =
      machine.contents.printed (instruction.operandAt 0) instruction.opcode := by
  have registers := Instruction.registers_accepted accepted
  cases instruction
  case prn a =>
    have low := registers a (List.mem_singleton_self a)
    simp only [Instruction.printed, get_eq, Register.val_named low]
    rfl
  all_goals rfl

/-- Events other than printing do not matter for what is printed. -/
theorem printedIn_executed (running : machine.halted = false)
    (fetched : machine.fetch = .ok instruction) (accepted : instruction.refusal? machine = none) :
    printedIn machine.step.events = instruction.printed machine := by
  have quiet (halts : Prop) [Decidable halts] :
      printedIn (if halts then [.halted machine.counter] else []) = [] := by
    split <;> rfl
  rw [step_executed running fetched accepted]
  rw [printedIn_fetched, printedIn_append, printedIn_map_printed, quiet, List.append_nil]

/-- The operand bytes of a fetched instruction are the cells behind the program counter. -/
theorem operandAt_eq (fetched : machine.fetch = .ok instruction) {position : Nat}
    (taken : position < instruction.opcode.operandCount) :
    instruction.operandAt position =
      machine.contents.cell (machine.contents.counter + (position + 1)) := by
  have inside := (fetch_eq_ok_iff.mp fetched).1
  have address : (machine.counter + UInt16.ofNat (position + 1)).toUInt8.toNat =
      machine.counter.toNat + (position + 1) := by
    rw [UInt16.toNat_toUInt8, UInt16.toNat_add, UInt16.toNat_ofNat']
    omega
  rw [operandAt_of_fetch fetched taken, read_eq, address]
  rfl

/-- A step that succeeds has executed the opcode that stands at the program counter, and what the
machine holds after it is what the row of the table says, for the operand bytes behind it.
No other machine holds that. Where the row does not give the program counter itself, the
counter has moved by one and by the number in the two high bits of the opcode. -/
theorem step_follows_table {opcode : Opcode} (running : machine.halted = false)
    (succeeded : machine.step.result = .ok opcode) :
    let before := machine.contents
    let a := before.cell (before.counter + 1)
    let b := before.cell (before.counter + 2)
    let count := (before.cell before.counter >>> 6).toNat
    before.cell before.counter = opcode.byte ∧
    before.counter + count < 256 ∧
    machine.step.machine.contents = before.after a b opcode ∧
    (∀ other : Machine, other.contents = before.after a b opcode →
      other = machine.step.machine) ∧
    (machine.step.machine.contents.counter = before.counter + count + 1 ∨
      opcode = .call ∨ opcode = .ret ∨ opcode = .jmp ∨
      (opcode = .jeq ∧ before.flags &&& 1 ≠ 0) ∨ (opcode = .jne ∧ before.flags &&& 1 = 0)) ∧
    printedIn machine.step.events = before.printed a opcode := by
  intro before a b count
  obtain ⟨-, instruction, rfl, fetched, accepted⟩ := step_eq_ok succeeded
  obtain ⟨inside, byte, -⟩ := fetch_eq_ok_iff.mp fetched
  have first (taken : 1 ≤ instruction.opcode.operandCount) : instruction.operandAt 0 = a :=
    operandAt_eq fetched taken
  have second (taken : 2 ≤ instruction.opcode.operandCount) : instruction.operandAt 1 = b :=
    operandAt_eq fetched taken
  have opcodeByte : before.cell before.counter = instruction.opcode.byte := by
    rw [← byte, read_eq, UInt16.toNat_toUInt8, Nat.mod_eq_of_lt (by omega)]
    rfl
  have counted : count = instruction.opcode.operandCount :=
    congrArg (fun byte : UInt8 => (byte >>> 6).toNat) opcodeByte
  have next : machine.step.machine.contents = before.after a b instruction.opcode := by
    rw [step_executed running fetched accepted, contents_next fetched accepted]
    exact before.after_congr first second
  refine ⟨opcodeByte, counted ▸ inside, next, ?_, ?_, ?_⟩
  · intro other same
    exact contents_injective (same.trans next.symm)
  · rw [next, counted]
    exact before.counter_after a b instruction.opcode
  · rw [printedIn_executed running fetched accepted, printed_eq accepted]
    exact before.printed_congr first

/-- A machine about to execute the instruction in its first cells, with 0x2a on the stack, 0x20 in
R1, and the flags of two equal bytes. -/
def about (opcode operand : UInt8) : Machine where
  memory := ((Memory.blank.write 0 opcode).write 1 operand).write 0xf4 0x2a
  registers := ⟨#v[0, 0x20, 0, 0, 0, 0, 0, 0xf4]⟩
  counter := 0
  flags := ⟨1⟩
  halted := false

/-- PUSH R7 stores the moved stack pointer, POP and RET take the byte on the stack, and JEQ goes to
where R1 says. -/
theorem step_follows_table_about :
    ((about 0x45 7).step.result = .ok .push ∧
      (about 0x45 7).step.machine.contents.cell 0xf3 = 0xf3) ∧
    ((about 0x46 2).step.result = .ok .pop ∧
      (about 0x46 2).step.machine.contents.register 2 = 0x2a) ∧
    ((about 0x11 0).step.result = .ok .ret ∧
      (about 0x11 0).step.machine.contents.counter = 0x2a) ∧
    ((about 0x55 1).step.result = .ok .jeq ∧
      (about 0x55 1).step.machine.contents.counter = 0x20) := by
  have pushed : (about 0x45 7).step.result = .ok .push := by rfl
  have popped : (about 0x46 2).step.result = .ok .pop := by rfl
  have returned : (about 0x11 0).step.result = .ok .ret := by rfl
  have jumped : (about 0x55 1).step.result = .ok .jeq := by rfl
  refine ⟨⟨pushed, ?_⟩, ⟨popped, ?_⟩, ⟨returned, ?_⟩, ⟨jumped, ?_⟩⟩
  · rw [(step_follows_table rfl pushed).2.2.1]
    rfl
  · rw [(step_follows_table rfl popped).2.2.1]
    rfl
  · rw [(step_follows_table rfl returned).2.2.1]
    rfl
  · rw [(step_follows_table rfl jumped).2.2.1]
    rfl

end Machine
end LS8
