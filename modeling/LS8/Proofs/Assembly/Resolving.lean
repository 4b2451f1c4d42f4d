import LS8.Proofs.Assembly.Operands
import LS8.Proofs.Assembly.Spelling
import LS8.Proofs.Instruction.Sweep
import LS8.Proofs.Machine.Attempting

/-! Resolving labels in a program of instruction lines. Every cell becomes a byte by itself, so an
instruction with labels becomes an instruction with the same opcode, which is as long and is the
one that its line means. -/
namespace LS8.Assembly

variable {labels : List Definition}

/-- The byte of an operand: the address of a label is a byte only within memory. -/
inductive Operand.Becomes (labels : List Definition) : Operand → UInt8 → Prop
  | byte (value : UInt8) : Becomes labels (.byte value) value
  | label {label : Label} {value : UInt8} :
    Definition.address? labels label = some value.toNat → Becomes labels (.label label) value

theorem Cell.becomes_of_resolve {cell : Cell} {value : UInt8}
    (resolved : cell.resolve labels = .ok value) : cell.operand.Becomes labels value := by
  obtain ⟨line, operand⟩ := cell
  cases operand with
  | byte known =>
    cases resolved
    exact .byte value
  | label label =>
    rw [Cell.resolve_label] at resolved
    split at resolved
    · contradiction
    · rename_i address found
      split at resolved
      · rename_i low
        cases resolved
        refine .label ?_
        rw [found, UInt8.toNat_ofNat', Nat.mod_eq_of_lt low]
      · contradiction

theorem becomes_of_mapM {cells : List Cell} {bytes : List UInt8}
    (resolved : cells.mapM (Cell.resolve labels) = .ok bytes) :
    List.Forall₂ (Operand.Becomes labels) (cells.map Cell.operand) bytes := by
  induction cells generalizing bytes with
  | nil =>
    cases resolved
    exact .nil
  | cons cell rest ih =>
    rw [List.mapM_cons] at resolved
    cases first : cell.resolve labels with
    | error diagnostic => rw [first] at resolved; contradiction
    | ok value =>
      cases later : rest.mapM (Cell.resolve labels) with
      | error diagnostic => rw [first, later] at resolved; contradiction
      | ok values =>
        rw [first, later] at resolved
        cases resolved
        exact .cons (Cell.becomes_of_resolve first) (ih later)

theorem mapM_of_becomes {cells : List Cell} {bytes : List UInt8}
    (become : List.Forall₂ (Operand.Becomes labels) (cells.map Cell.operand) bytes) :
    cells.mapM (Cell.resolve labels) = .ok bytes := by
  induction cells generalizing bytes with
  | nil =>
    cases become
    rfl
  | cons cell rest ih =>
    obtain ⟨value, values, first, later, rfl⟩ := List.forall₂_cons_left_iff.mp become
    have resolved : cell.resolve labels = .ok value := by
      obtain ⟨line, operand⟩ := cell
      cases first with
      | byte value => rfl
      | label found =>
        have low : value.toNat < 256 := value.toNat_lt
        simp [Cell.resolve_label, found, low]
    rw [List.mapM_cons, resolved, ih later]
    rfl

/-- The instruction that one with labels becomes. -/
structure Unlinked.Links (labels : List Definition) (unlinked : Unlinked)
    (instruction : Instruction) : Prop where
  opcode : instruction.opcode = unlinked.opcode
  operands : List.Forall₂ (Operand.Becomes labels) unlinked.operands instruction.operands

theorem Unlinked.Links.length_parts {unlinked : Unlinked} {instruction : Instruction}
    (links : unlinked.Links labels instruction) :
    unlinked.parts.length = instruction.encode.length := by
  rw [parts, Instruction.encode, List.length_cons, List.length_cons, links.operands.length_eq]

theorem length_flatMap_links {unlinked : List Unlinked} {instructions : List Instruction}
    (links : List.Forall₂ (Unlinked.Links labels) unlinked instructions) :
    (unlinked.flatMap Unlinked.parts).length =
      (instructions.flatMap Instruction.encode).length := by
  induction links with
  | nil => rfl
  | cons first _ ih =>
    rw [List.flatMap_cons, List.flatMap_cons, List.length_append, List.length_append,
      first.length_parts, ih]

/-- Bytes of instructions with labels are encoded instructions. -/
theorem exists_links {unlinked : List Unlinked} {bytes : List UInt8}
    (counted : ∀ each ∈ unlinked, each.operands.length = each.opcode.operandCount)
    (become : List.Forall₂ (Operand.Becomes labels) (unlinked.flatMap Unlinked.parts) bytes) :
    ∃ instructions, bytes = instructions.flatMap Instruction.encode ∧
      List.Forall₂ (Unlinked.Links labels) unlinked instructions := by
  induction unlinked generalizing bytes with
  | nil =>
    cases become
    exact ⟨[], rfl, .nil⟩
  | cons each rest ih =>
    rw [List.flatMap_cons, Unlinked.parts, List.cons_append] at become
    obtain ⟨byte, tail, opener, behind, rfl⟩ := List.forall₂_cons_left_iff.mp become
    cases opener
    have operands := List.forall₂_take each.operands.length behind
    have later := List.forall₂_drop each.operands.length behind
    rw [List.take_left] at operands
    rw [List.drop_left] at later
    obtain ⟨instruction, opcode, taken⟩ := Instruction.exists_operands
      (operands.length_eq.symm.trans (counted each List.mem_cons_self))
    obtain ⟨instructions, bytes, links⟩ :=
      ih (fun other member => counted other (List.mem_cons_of_mem _ member)) later
    refine ⟨instruction :: instructions, ?_, .cons ⟨opcode, taken ▸ operands⟩ links⟩
    rw [List.flatMap_cons, Instruction.encode, opcode, taken, ← bytes, List.cons_append,
      List.take_append_drop]

/-- What a word stands for at the place of an operand: the number of the register that it writes,
the number that it writes, or the address of the label that it names. -/
inductive Denotes (labels : List Definition) : Shape → List Char → UInt8 → Prop
  | register {word : List Char} {index : UInt8} : IsRegister word index.toNat →
    Denotes labels .register word index
  | number {word : List Char} {value : UInt8} : word.head?.any Char.isDigit = true →
    Written word value ∨ WrittenWithPlus word value → Denotes labels .immediate word value
  | address {label : Label} {value : UInt8} : label.addressIn? labels = some value.toNat →
    Denotes labels .immediate label.name value

/-- The instruction that a phrase means: the operation its mnemonic names, and for each operand
byte one word that denotes it. -/
structure Phrase.Means (labels : List Definition) (phrase : Phrase) (instruction : Instruction) :
    Prop where
  opcode : Opcode.ofMnemonic? phrase.mnemonic = some instruction.opcode
  counted : phrase.words.length = instruction.opcode.operandCount
  operands : List.Forall₂ (fun place value => Denotes labels place.1 place.2 value)
    ((shapes instruction.opcode).zip phrase.words) instruction.operands

/-- A word denotes the byte that its operand becomes. -/
theorem denotes_of_read {shape : Shape} {word : List Char} {operand : Operand} {value : UInt8}
    (read : shape.read word = .ok operand) (becomes : operand.Becomes labels value) :
    Denotes labels shape word value := by
  generalize accepted : Except.ok operand = result at read
  cases reads_iff.mpr read.symm with
  | register register =>
    cases accepted
    cases becomes
    exact .register register
  | noRegister | noNumber => cases accepted
  | number opens written =>
    cases accepted
    cases becomes
    exact .number opens written
  | @name _ result _ named =>
    cases result with
    | error cause => cases accepted
    | ok label =>
      cases accepted
      cases becomes with
      | label found =>
        cases named
        rw [Definition.address?_eq] at found
        exact .address found

theorem denotes_of_zipWith {shapes : List Shape} {words : List (List Char)}
    {operands : List Operand} {values : List UInt8}
    (read : List.zipWith Shape.read shapes words = operands.map .ok)
    (become : List.Forall₂ (Operand.Becomes labels) operands values) :
    List.Forall₂ (fun place value => Denotes labels place.1 place.2 value) (shapes.zip words)
      values := by
  induction become generalizing shapes words with
  | nil =>
    rw [List.map_nil, List.zipWith_eq_nil_iff] at read
    rw [List.zip_eq_nil_iff.mpr read]
    exact .nil
  | cons becomes _ ih =>
    rw [List.map_cons, List.zipWith_eq_cons_iff] at read
    obtain ⟨shape, shapes, word, words, rfl, rfl, first, later⟩ := read
    exact .cons (denotes_of_read first.symm becomes) (ih later.symm)

theorem Phrase.means_of_links {phrase : Phrase} {unlinked : Unlinked} {instruction : Instruction}
    (gives : phrase.Gives unlinked) (links : unlinked.Links labels instruction) :
    phrase.Means labels instruction where
  opcode := by rw [links.opcode, gives.opcode]
  counted := by rw [links.opcode, gives.counted]
  operands := by
    rw [links.opcode]
    exact denotes_of_zipWith gives.operands links.operands

/-- The operands that are to be registers are written where the assembler reads registers. -/
theorem exists_shape_of_mem {instruction : Instruction} {index : UInt8}
    (member : index ∈ instruction.registers) :
    ∃ position : Nat, (shapes instruction.opcode)[position]? = some .register ∧
      instruction.operands[position]? = some index := by
  cases instruction
  case hlt | ret => cases member
  case ldi a value | prn a | push a | pop a | call a | jmp a | jeq a | jne a =>
    obtain rfl := List.mem_singleton.mp member
    exact ⟨0, rfl, rfl⟩
  case mul a b | add a b | cmp a b =>
    rcases List.mem_cons.mp member with rfl | last
    · exact ⟨0, rfl, rfl⟩
    · obtain rfl := List.mem_singleton.mp last
      exact ⟨1, rfl, rfl⟩

/-- An instruction line names only registers that there are. -/
theorem Phrase.Means.registered {phrase : Phrase} {instruction : Instruction}
    (means : phrase.Means labels instruction) : instruction.Registered := by
  intro index member
  obtain ⟨position, shape, operand⟩ := exists_shape_of_mem member
  obtain ⟨inside, register⟩ := List.getElem?_eq_some_iff.mp shape
  obtain ⟨taken, same⟩ := List.getElem?_eq_some_iff.mp operand
  have counted : position < phrase.words.length := by
    rw [means.counted, ← length_shapes]
    exact inside
  have denotes := means.operands.get (List.length_zip ▸ Nat.lt_min.mpr ⟨inside, counted⟩) taken
  simp only [List.get_eq_getElem, List.getElem_zip, register, same] at denotes
  cases denotes with
  | register register => exact UInt8.lt_iff_toNat_lt.mpr register.1

end LS8.Assembly
