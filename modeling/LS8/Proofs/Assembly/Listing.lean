import LS8.Proofs.Assembly.Outline
import LS8.Proofs.Assembly.Resolving
import LS8.Proofs.Assembly.Writing

/-! Listings of programs. A program is written line by line as a sweep finds it: an instruction
where there is a whole one that the assembler can be given, and a single byte where there is none.
However its numbers are written and whatever comments are added, a listing is assembled to the
program it was made from. -/
namespace LS8.Assembly

instance (instruction : Instruction) : Decidable instruction.Registered :=
  List.decidableBAll (· < 8) instruction.registers

/-- What one line of a listing stands for. -/
inductive Entry
  | instruction (instruction : Instruction) (registered : instruction.Registered)
  | byte (value : UInt8)

def Entry.bytes : Entry → Program
  | instruction each _ => each.encode
  | byte value => [value]

/-- Sweeps a program from its first byte on. -/
def disassemble : Program → List Entry
  | [] => []
  | byte :: rest =>
    match Opcode.ofByte? byte with
    | none => .byte byte :: disassemble rest
    | some opcode =>
      let instruction := Instruction.ofOperands opcode (rest.getD 0 0) (rest.getD 1 0)
      if whole : opcode.operandCount ≤ rest.length ∧ instruction.Registered then
        .instruction instruction whole.2 :: disassemble (rest.drop opcode.operandCount)
      else .byte byte :: disassemble rest
termination_by program => program.length
decreasing_by
  all_goals
    simp only [List.length_drop, List.length_cons]
    omega

/-- How a line is written: the notation of its number, and a comment behind it. -/
structure Manner where
  style : Numeral.Style
  comment : List UInt8
  isNotation : IsNotation style
  isComment : IsComment comment

namespace Entry

def text (style : Numeral.Style) : Entry → List Char
  | instruction each _ =>
    each.opcode.letters ++ writeWords [' ']
      (List.zipWith (Shape.write style) (shapes each.opcode) each.operands)
  | byte value => octet.digits value.toNat

def line (manner : Manner) (entry : Entry) : List UInt8 :=
  Text.encode (entry.text manner.style) ++ manner.comment

end Entry

def listing (manners : Nat → Manner) (program : Program) : List (List UInt8) :=
  (disassemble program).mapIdx fun index => Entry.line (manners index)

section
variable {byte : UInt8} {rest : Program} {opcode : Opcode}

/-- The instruction that is found has the bytes it was found in. -/
theorem encode_ofOperands (known : Opcode.ofByte? byte = some opcode)
    (inside : opcode.operandCount ≤ rest.length) :
    (Instruction.ofOperands opcode (rest.getD 0 0) (rest.getD 1 0)).encode =
      byte :: rest.take opcode.operandCount := by
  have few := opcode.operandCount_le_two
  rw [Instruction.encode, Instruction.opcode_ofOperands, Instruction.operands_ofOperands,
    Opcode.ofByte?_eq_some_iff.mp known]
  congr 1
  rcases rest with _ | ⟨first, _ | ⟨second, rest⟩⟩
  · rw [Nat.le_zero.mp inside]
    rfl
  · rcases Nat.le_one_iff_eq_zero_or_eq_one.mp inside with count | count
    all_goals
      rw [count]
      rfl
  · exact (List.take_append_of_le_length few).symm

theorem disassemble_unknown (unknown : Opcode.ofByte? byte = none) :
    disassemble (byte :: rest) = .byte byte :: disassemble rest := by
  simp only [disassemble, unknown]

theorem disassemble_instruction (known : Opcode.ofByte? byte = some opcode)
    (whole : opcode.operandCount ≤ rest.length ∧
      (Instruction.ofOperands opcode (rest.getD 0 0) (rest.getD 1 0)).Registered) :
    disassemble (byte :: rest) =
      .instruction _ whole.2 :: disassemble (rest.drop opcode.operandCount) := by
  simp only [disassemble, known]
  exact dif_pos whole

theorem disassemble_cut (known : Opcode.ofByte? byte = some opcode)
    (cut : ¬ (opcode.operandCount ≤ rest.length ∧
      (Instruction.ofOperands opcode (rest.getD 0 0) (rest.getD 1 0)).Registered)) :
    disassemble (byte :: rest) = .byte byte :: disassemble rest := by
  simp only [disassemble, known]
  exact dif_neg cut

end

/-- A listing has all of the program. -/
theorem flatMap_bytes_disassemble (program : Program) :
    (disassemble program).flatMap Entry.bytes = program := by
  induction program using disassemble.induct with
  | case1 => rw [disassemble, List.flatMap_nil]
  | case2 byte rest unknown ih =>
    rw [disassemble_unknown unknown, List.flatMap_cons, ih]
    rfl
  | case3 byte rest opcode known instruction whole ih =>
    rw [disassemble_instruction known whole, List.flatMap_cons, ih, Entry.bytes,
      encode_ofOperands known whole.1, List.cons_append, List.take_append_drop]
  | case4 byte rest opcode known instruction cut ih =>
    rw [disassemble_cut known cut, List.flatMap_cons, ih]
    rfl

/-- A statement that is nothing but some bytes. -/
structure Statement.Emits (statement : Statement) (bytes : Program) : Prop where
  unnamed : ∀ label, statement ≠ .label label
  operands : statement.operands = bytes.map fun byte => .ok (.byte byte)

theorem Statement.Emits.contribution {statement : Statement} {bytes : Program}
    (emits : statement.Emits bytes) (address : Nat) (defined : List Label)
    (room : address + bytes.length ≤ programCapacity) :
    statement.contribution address defined = .ok (.bytes (bytes.map Operand.byte)) := by
  have ends : address + (bytes.map Operand.byte).length ≤ programCapacity := by
    rwa [List.length_map]
  have operands : statement.operands = (bytes.map Operand.byte).map .ok := by
    rw [emits.operands, List.map_map]
    rfl
  rw [contribution_eq_fit _ _ emits.unnamed, operands, fit_map_ok ends]
  rfl

/-- A line that can stand in a source for some bytes. -/
structure Lists (line : List UInt8) (bytes : Program) : Prop where
  clear : newline ∉ line
  fits : Fits line
  states : ∃ statement, Statement.read (line.takeWhile (· != commentSign)) = .ok statement ∧
    statement.Emits bytes

theorem forall₂_takes {instruction : Instruction} (registered : instruction.Registered) :
    List.Forall₂ Shape.Takes (shapes instruction.opcode) instruction.operands := by
  cases instruction <;>
    simp_all [Instruction.Registered, Instruction.registers, Instruction.opcode,
      Instruction.operands, shapes, Shape.Takes]

section
variable {style : Numeral.Style} (isNotation : IsNotation style)
include isNotation

theorem zipWith_read_write {shapes : List Shape} {values : List UInt8}
    (takes : List.Forall₂ Shape.Takes shapes values) :
    List.zipWith Shape.read shapes (List.zipWith (Shape.write style) shapes values) =
      values.map fun value => .ok (.byte value) := by
  induction takes with
  | nil => rfl
  | cons first _ ih =>
    rw [List.zipWith_cons_cons, List.zipWith_cons_cons, ih, read_write isNotation first]
    rfl

theorem isShortWord_of_mem {shapes : List Shape} {values : List UInt8}
    (takes : List.Forall₂ Shape.Takes shapes values) :
    ∀ word ∈ List.zipWith (Shape.write style) shapes values, IsShortWord word := by
  induction takes with
  | nil => exact List.forall_mem_nil _
  | cons first _ ih =>
    exact List.forall_mem_cons.mpr ⟨isShortWord_write isNotation first, ih⟩

theorem mem_text {entry : Entry} {c : Char} (member : c ∈ entry.text style) :
    continuesName c = true ∨ c ∈ [',', ' '] := by
  cases entry with
  | byte value =>
    obtain ⟨some, few⟩ := octet_base
    obtain ⟨digit, read⟩ := Numeral.exists_digit?_digits some few value.toNat c member
    exact .inl (continuesName_of_digit? read)
  | instruction each registered =>
    rcases List.mem_append.mp member with front | behind
    · have capital := isUpper_of_mem_letters each.opcode front
      exact .inl (by simp [continuesName, Char.isAlphanum, Char.isAlpha, capital])
    · rcases mem_writeWords behind with gap | comma | ⟨word, inside, letter⟩
      · exact .inr (List.mem_cons_of_mem _ gap)
      · exact .inr comma
      · exact .inl ((isShortWord_of_mem isNotation (forall₂_takes registered) word inside).plain c
          letter)

theorem ofText_instruction {each : Instruction} (registered : each.Registered) :
    Statement.ofText (Text.trim ((Entry.instruction each registered).text style)) =
      .ok (.instruction each.opcode.byte (each.operands.map fun value => .ok (.byte value))) := by
  have takes := forall₂_takes registered
  have named := each.opcode.ofMnemonic?_letters
  obtain ⟨first, rest, letters, starts⟩ := startsName_of_ofMnemonic? named
  have whole (c : Char) (member : c ∈ each.opcode.letters) : Text.isBlank c = false :=
    Text.isBlank_of_isAlpha (by simp [Char.isAlpha, isUpper_of_mem_letters each.opcode member])
  have instruction : IsInstruction ((Entry.instruction each registered).text style) := by
    constructor
    · rw [Entry.text, letters, List.cons_append,
        Text.visible_cons (whole first (by simp [letters]))]
      exact starts
    · intro colon
      have seen := List.mem_of_mem_filter (List.mem_of_getLast? colon)
      rcases mem_text isNotation seen with letter | comma <;> contradiction
  have stops : ∀ c ∈ (writeWords [' '] (List.zipWith (Shape.write style) (shapes each.opcode)
      each.operands)).head?, Text.isBlank c = true := by
    intro c first
    obtain rfl := List.mem_singleton.mp (head?_writeWords (List.cons_ne_nil ' ' []) c first)
    decide
  have words := words_writeWords (List.cons_ne_nil ' ' []) (List.forall_mem_singleton.mpr rfl)
    (isShortWord_of_mem isNotation takes)
  have phrase := inText_of_parts (List.forall_mem_nil _) whole (by simp [letters]) stops
  rw [List.nil_append, words] at phrase
  rw [ofText_of_isInstruction instruction, Entry.text, phrase, Phrase.statement]
  have counted : (List.zipWith (Shape.write style) (shapes each.opcode) each.operands).length =
      (shapes each.opcode).length := by
    simp
  simp only [named, counted, if_true, zipWith_read_write isNotation takes]

theorem length_text_le (entry : Entry) : (entry.text style).length ≤ 64 := by
  cases entry with
  | byte value =>
    exact Nat.le_trans (Numeral.length_digits_le octet_base.1 value) (by decide)
  | instruction each registered =>
    have letters : each.opcode.letters.length ≤ 4 := by
      cases each.opcode <;> decide
    have few := each.opcode.operandCount_le_two
    have words : (List.zipWith (Shape.write style) (shapes each.opcode) each.operands).length ≤
        2 := by
      simpa using few
    have length : (writeWords [' '] _).length ≤ 1 + 20 * _ :=
      length_writeWords_le (isShortWord_of_mem isNotation (forall₂_takes registered))
    rw [Entry.text, List.length_append]
    omega

end

/-- A line of a listing stands for its entry. -/
theorem lists_line (manner : Manner) (entry : Entry) : Lists (entry.line manner) entry.bytes := by
  have letters (c : Char) (member : c ∈ entry.text manner.style) :
      c.toNat < 0x80 ∧ c ≠ '#' ∧ c ≠ '\n' := by
    rcases mem_text manner.isNotation member with name | gap
    · obtain ⟨-, high, -⟩ := toNat_of_continuesName name
      have plain := isPlain_of_continuesName name
      exact ⟨by omega, plain.comment, plain.newline⟩
    · rcases List.mem_pair.mp gap with rfl | rfl <;> decide
  have unmarked : commentSign ∉ Text.encode (entry.text manner.style) := fun member =>
    (letters '#' (commentSign_mem_encode_iff.mp member)).2.1 rfl
  have kept := takeWhile_append_comment unmarked manner.isComment.marked
  refine ⟨?_, ?_, ?_⟩
  · intro member
    rcases List.mem_append.mp member with text | comment
    · exact (letters '\n' (newline_mem_encode_iff.mp text)).2.2 rfl
    · exact manner.isComment.inLine comment
  · rw [Fits, Entry.line, kept, Text.length_encode_of_ascii fun c member => (letters c member).1]
    exact Nat.le_trans (length_text_le manner.isNotation entry) (by decide)
  · rw [Entry.line, kept, read_encode]
    cases entry with
    | byte value => exact ⟨_, ofText_octet value, ⟨by rintro label ⟨⟩, rfl⟩⟩
    | instruction each registered =>
      exact ⟨_, ofText_instruction manner.isNotation registered, ⟨by rintro label ⟨⟩, rfl⟩⟩

theorem lists_listing (manners : Nat → Manner) (entries : List Entry) :
    List.Forall₂ Lists (entries.mapIdx fun index => Entry.line (manners index))
      (entries.map Entry.bytes) := by
  induction entries generalizing manners with
  | nil => exact .nil
  | cons entry rest ih =>
    rw [List.mapIdx_cons, List.map_cons]
    exact .cons (lists_line (manners 0) entry) (ih fun index => manners (index + 1))

theorem lists_nil : Lists [] [] :=
  ⟨List.not_mem_nil, Nat.zero_le _, .blank, rfl, by rintro label ⟨⟩, rfl⟩

/-- Lines of bytes are assembled to their bytes. -/
theorem outcome_of_lists {lines : List (List UInt8)} {chunks : List Program}
    (lists : List.Forall₂ Lists lines chunks) (number : Nat) {layout : Layout} {front : Program}
    (cells : layout.cells.map Cell.operand = front.map Operand.byte)
    (room : front.length + chunks.flatten.length ≤ programCapacity) :
    (layout.outcome (sayings number lines)).result = .ok (front ++ chunks.flatten) := by
  induction lists generalizing number layout front with
  | nil =>
    have become : List.Forall₂ (Operand.Becomes layout.labels) (front.map Operand.byte) front := by
      rw [List.forall₂_map_left_iff, List.forall₂_same]
      exact fun value _ => .byte value
    rw [← cells] at become
    have resolved := mapM_of_becomes become
    rw [List.flatten_nil, List.append_nil]
    exact (link_draft layout).trans resolved
  | @cons line chunk lines chunks first _ ih =>
    obtain ⟨statement, read, emits⟩ := first.states
    have size : layout.cells.length = front.length := by
      simpa using congrArg List.length cells
    rw [List.flatten_cons, List.length_append, ← Nat.add_assoc] at room
    have fitted := emits.contribution layout.cells.length (layout.labels.map Definition.label)
      (by omega)
    have appended : (layout.append number (.bytes (chunk.map Operand.byte))).cells.map
        Cell.operand = (front ++ chunk).map Operand.byte := by
      simp [Layout.append, cells, Function.comp_def]
    have later := ih (number + 1) appended (by rwa [List.length_append])
    rw [sayings_cons, read, Layout.outcome, fitted, List.flatten_cons, ← List.append_assoc]
    exact later

section
variable {lines : List (List UInt8)} {chunks : List Program}

theorem exists_lists (lists : List.Forall₂ Lists lines chunks) :
    ∀ line ∈ lines, ∃ chunk, Lists line chunk := by
  induction lists with
  | nil => exact List.forall_mem_nil _
  | cons first _ ih => exact List.forall_mem_cons.mpr ⟨⟨_, first⟩, ih⟩

/-- Lines of bytes are a source for their bytes. -/
theorem assemble_of_lists (lists : List.Forall₂ Lists lines chunks)
    (room : chunks.flatten.length ≤ programCapacity) :
    (assemble ([newline].intercalate lines)).result = .ok chunks.flatten := by
  by_cases some : lines = []
  · subst some
    cases lists
    rfl
  have split : ([newline].intercalate lines).splitOn newline = lines := by
    refine List.splitOn_intercalate newline (fun line member => ?_) some
    obtain ⟨chunk, lists⟩ := exists_lists lists line member
    exact lists.clear
  have short : Short ([newline].intercalate lines) := by
    rw [Short, split]
    intro line member
    obtain ⟨chunk, lists⟩ := exists_lists lists line member
    exact lists.fits
  have room : ([] : Program).length + chunks.flatten.length ≤ programCapacity := by
    rwa [List.length_nil, Nat.zero_add]
  rw [assemble_eq_outcome, saying_sourceLines short, split]
  exact outcome_of_lists lists 1 rfl room

end

/-- Lines that all end in a newline are followed by an empty line. -/
theorem flatMap_newline (lines : List (List UInt8)) :
    lines.flatMap (· ++ [newline]) = [newline].intercalate (lines ++ [[]]) := by
  induction lines with
  | nil => rfl
  | cons line rest ih =>
    rw [List.flatMap_cons, ih, List.cons_append, List.intercalate_cons_of_ne_nil (by simp)]

/-- Listing a program and assembling the listing gives the program. -/
theorem assemble_listing (manners : Nat → Manner) {program : Program}
    (fits : program.length ≤ programCapacity) :
    (assemble ([newline].intercalate (listing manners program))).result = .ok program ∧
      (assemble ((listing manners program).flatMap (· ++ [newline]))).result = .ok program := by
  have lists := lists_listing manners (disassemble program)
  have whole := flatMap_bytes_disassemble program
  rw [List.flatMap_def] at whole
  constructor
  · have assembled := assemble_of_lists lists (by rwa [whole])
    rwa [whole] at assembled
  · have ended : ((disassemble program).map Entry.bytes ++ [[]]).flatten = program := by
      rw [List.flatten_append, whole]
      exact List.append_nil program
    have assembled := assemble_of_lists (List.rel_append lists (.cons lists_nil .nil))
      (by rwa [ended])
    rw [ended, ← flatMap_newline] at assembled
    exact assembled

/-- Hexadecimal with a comment on the first line, and decimal on all others. -/
def hexadecimalFirst : Nat → Manner
  | 0 => ⟨Numeral.address, Text.encode "# eight".toList, ⟨by decide, by decide⟩,
    isComment_cons (by decide)⟩
  | _ + 1 => ⟨Numeral.decimal, [], ⟨by decide, by decide⟩, isComment_nil⟩

/-- An instruction, one whose register does not exist, and another instruction. -/
def partlyCode : Program := [0x82, 0, 8, 0x47, 9, 1]

theorem listing_partlyCode :
    listing hexadecimalFirst partlyCode = ["LDI R0, 0x08# eight".toList, "01000111".toList,
      "00001001".toList, "HLT".toList].map Text.encode := by
  have entries : disassemble partlyCode = [.instruction (.ldi 0 8) (by decide), .byte 0x47,
      .byte 9, .instruction .hlt (by decide)] := by
    have load := @disassemble_instruction 0x82 [0, 8, 0x47, 9, 1] .ldi rfl ⟨by decide, by decide⟩
    have print := @disassemble_cut 0x47 [9, 1] .prn rfl (by decide)
    have data := @disassemble_unknown 9 [1] rfl
    have halt := @disassemble_instruction 1 [] .hlt rfl ⟨by decide, by decide⟩
    refine load.trans (congrArg (_ :: ·) ?_)
    change disassemble [0x47, 9, 1] = _
    rw [print, data, halt]
    simp only [List.drop_nil, disassemble]
    rfl
  rw [listing, entries]
  rfl

theorem assemble_listing_partlyCode :
    partlyCode.length ≤ programCapacity ∧
      (assemble (Text.encode "LDI R0, 0x08# eight\n01000111\n00001001\nHLT".toList)).result =
        .ok partlyCode := by
  have fits : partlyCode.length ≤ programCapacity := by decide
  have assembled := (assemble_listing hexadecimalFirst fits).1
  rw [listing_partlyCode] at assembled
  exact ⟨fits, assembled⟩

end LS8.Assembly
