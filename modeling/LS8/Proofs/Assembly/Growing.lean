import LS8.Proofs.Assembly.Ending
import LS8.Proofs.Assembly.Noting

/-! How the tables of a draft grow. A line that is accepted defines a label, or it is an LDI with a
label for its immediate, or it is nothing but bytes; and whatever a draft keeps to is kept to in each
of these three cases. An LDI takes three bytes of a program that has 256 at most, so the references
run out of bytes long before they run out of places. -/
namespace LS8.Assembly

/-- A line that can be read has no label among its operands unless it is an LDI. -/
theorem eq_ldi_of_read {line : List UInt8} {statement : Statement} {label : Label}
    (read : Statement.read line = .ok statement)
    (used : .ok (.label label) ∈ statement.operands) :
    ∃ word, statement = .instruction 0x82 [(readRegister word).map .byte, .ok (.label label)] := by
  cases statement with
  | blank | label _ => cases used
  | byte value => simp [Statement.operands] at used
  | instruction byte operands =>
    obtain ⟨-, other⟩ | ⟨phrase, opcode, -, -, counted, same⟩ := read_eq_phrase read
    · exact absurd rfl (other byte operands)
    cases same
    rcases List.mem_cons.mp used with same | member
    · cases same
    have wanted : .immediate ∈ shapes opcode := by
      apply List.count_pos_iff.mp
      have uses := countP_isUse_zipWith_read (shapes opcode) phrase.words
      exact Nat.lt_of_lt_of_le (List.countP_pos_iff.mpr ⟨_, member, rfl⟩) uses
    obtain rfl : opcode = .ldi := by
      cases opcode <;> first | rfl | exact absurd wanted (by decide)
    obtain ⟨first, second, words⟩ := List.length_eq_two.mp counted
    have both : List.zipWith Shape.read (shapes .ldi) phrase.words =
        [(readRegister first).map .byte, readImmediate second] := by
      rw [words]
      rfl
    have register : Except.ok (Operand.label label) ≠ (readRegister first).map .byte := by
      cases readRegister first <;> simp [Except.map]
    rw [both, List.mem_cons, List.mem_singleton, or_iff_right register] at member
    have opener : Opcode.ldi.byte = 0x82 := rfl
    exact ⟨first, by rw [both, ← member, opener]⟩

/-- The ways in which a line that is accepted changes a draft. -/
inductive Draft.Grows (line : SourceLine) (draft : Draft) : Draft → Prop
  | label {label : Label} : line.label? = some label → line.operands = [] →
    label ∉ draft.definitions.map Definition.label → draft.definitions.length < maxLabels →
    Grows line draft
      { draft with definitions := draft.definitions ++ [⟨label, draft.code.length⟩] }
  | bytes {bytes : List UInt8} : line.operands = bytes.map (fun byte => .ok (.byte byte)) →
    draft.code.length + bytes.length ≤ programCapacity →
    Grows line draft { draft with code := draft.code ++ bytes }
  | use {register : UInt8} {label : Label} :
    line.read = .ok (.instruction 0x82 [.ok (.byte register), .ok (.label label)]) →
    register.toNat < 8 → draft.code.length + 3 ≤ programCapacity →
    Grows line draft { draft with
      code := draft.code ++ [0x82, register, 0]
      references := draft.references ++ [⟨label, draft.code.length + 2, line.number⟩] }

/-- Operands without a label are bytes. -/
theorem exists_bytes {placed : List Operand} (plain : ∀ label, .label label ∉ placed) :
    ∃ bytes : List UInt8, placed = bytes.map .byte := by
  induction placed with
  | nil => exact ⟨[], rfl⟩
  | cons operand rest ih =>
    obtain ⟨bytes, rfl⟩ := ih fun label member => plain label (List.mem_cons_of_mem _ member)
    cases operand with
    | byte value => exact ⟨value :: bytes, rfl⟩
    | label label => exact absurd List.mem_cons_self (plain label)

theorem Draft.contribute_bytes (number : Nat) (draft : Draft) (bytes : List UInt8) :
    draft.contribute number (.bytes (bytes.map .byte)) =
      { draft with code := draft.code ++ bytes } := by
  have blank : ((bytes.map Operand.byte).map (Cell.mk number)).map Cell.blank = bytes := by
    simp [Function.comp_def, Cell.blank]
  have unused : referencesFrom draft.code.length
      ((bytes.map Operand.byte).map (Cell.mk number)) = [] := by
    rw [← List.length_eq_zero_iff, length_referencesFrom]
    simp [List.countP_eq_zero, Operand.isLabel]
  simp only [contribute, blank, unused, List.append_nil]

theorem Layout.Sound.grows {layout added : Layout} (sound : layout.Sound) {line : SourceLine}
    (accepted : layout.add line = .ok added) : layout.draft.Grows line added.draft := by
  obtain ⟨statement, contribution, stated, contributed, rfl⟩ := add_eq_ok accepted
  have size : layout.draft.code.length = layout.cells.length := layout.length_code_draft
  have operands : line.operands = statement.operands := by rw [SourceLine.operands, stated]
  rw [Layout.draft_append]
  by_cases named : ∃ label, statement = .label label
  · obtain ⟨label, rfl⟩ := named
    obtain rfl := contribution_label_eq_ok contributed
    have defined : line.label? = some label := by rw [SourceLine.label?, stated]
    rw [Statement.contribution] at contributed
    split at contributed
    · contradiction
    rename_i unused
    split at contributed
    · rename_i few
      rw [List.length_map] at few
      exact .label defined operands unused few
    · contradiction
  · have unnamed : ∀ label, statement ≠ .label label := fun label same => named ⟨label, same⟩
    obtain ⟨placed, fitted, rfl⟩ := contribution_eq_ok unnamed contributed
    obtain ⟨same, ends⟩ := fit_eq_ok fitted
    have room := ends sound.bounded
    by_cases used : ∃ label, .label label ∈ placed
    · obtain ⟨label, member⟩ := used
      have member : .ok (.label label) ∈ statement.operands := same ▸ List.mem_map_of_mem member
      obtain ⟨word, rfl⟩ := eq_ldi_of_read (read_eq_ok stated).2 member
      cases named : readRegister word with
      | error cause =>
        have refused : Except.error cause ∈ placed.map Except.ok := by
          rw [← same, named]
          simp [Statement.operands, Except.map]
        simp at refused
      | ok register =>
        obtain rfl : [.byte 0x82, .byte register, .label label] = placed := by
          rw [named] at same
          exact List.map_injective_iff.mpr (fun _ _ => Except.ok.inj) same
        rw [named] at stated
        rw [← size] at room
        exact .use stated (readRegister_lt named) room
    · obtain ⟨bytes, rfl⟩ := exists_bytes (not_exists.mp used)
      rw [Draft.contribute_bytes]
      refine .bytes ?_ ?_
      · rw [operands, same, List.map_map]
        rfl
      · rwa [size, ← List.length_map Operand.byte]

/-- A reference is that of an LDI line. It stands for the last of the three bytes of that line,
which stand behind the bytes of the lines in front. -/
inductive Reference.Waits : List SourceLine → Program → Reference → Prop
  | ldi {before after : List SourceLine} {line : SourceLine} {front back : Program}
      {register : UInt8} {label : Label} :
    line.read = .ok (.instruction 0x82 [.ok (.byte register), .ok (.label label)]) →
    register ≤ 7 → front.length = (before.flatMap SourceLine.operands).length →
    Waits (before ++ line :: after) (front ++ [0x82, register, 0] ++ back)
      ⟨label, front.length + 2, line.number⟩

theorem Reference.Waits.append {lines : List SourceLine} {code : Program} {reference : Reference}
    (waits : reference.Waits lines code) (more : List SourceLine) (bytes : Program) :
    reference.Waits (lines ++ more) (code ++ bytes) := by
  obtain ⟨read, named, place⟩ := waits
  rw [List.append_assoc, List.cons_append, List.append_assoc]
  exact .ldi read named place

/-- The byte that a reference stands for is there, and it is still zero. -/
theorem Reference.Waits.getElem? {lines : List SourceLine} {code : Program}
    {reference : Reference} (waits : reference.Waits lines code) :
    code[reference.address]? = some 0 := by
  obtain ⟨-, -, -⟩ := waits
  simp

namespace Draft

/-- What a draft of some lines keeps to. What its labels keep to is in their type. -/
structure Orderly (lines : List SourceLine) (draft : Draft) : Prop where
  emitted : draft.code.length = (lines.flatMap SourceLine.operands).length
  bounded : draft.code.length ≤ programCapacity
  few : draft.definitions.length ≤ maxLabels
  distinct : (draft.definitions.map Definition.label).Nodup
  ascending : draft.definitions.Pairwise fun earlier later => earlier.address ≤ later.address
  inside : ∀ definition ∈ draft.definitions, definition.address ≤ draft.code.length
  waiting : ∀ reference ∈ draft.references, reference.Waits lines draft.code
  spaced : draft.references.Pairwise fun earlier later => earlier.address + 3 ≤ later.address
  sparse : 3 * draft.references.length ≤ draft.code.length

variable {lines : List SourceLine} {line : SourceLine} {draft next : Draft}

theorem orderly_empty : empty.Orderly [] :=
  ⟨rfl, by decide, by decide, .nil, .nil, List.forall_mem_nil _, List.forall_mem_nil _, .nil,
    by decide⟩

theorem Orderly.grow (orderly : draft.Orderly lines) (grows : draft.Grows line next) :
    next.Orderly (lines ++ [line]) := by
  obtain ⟨emitted, bounded, few, distinct, ascending, inside, waiting, spaced, sparse⟩ := orderly
  have waits (bytes : Program) : ∀ reference ∈ draft.references,
      reference.Waits (lines ++ [line]) (draft.code ++ bytes) :=
    fun reference member => (waiting reference member).append [line] bytes
  have longer (bytes : Program) : ∀ definition ∈ draft.definitions,
      definition.address ≤ (draft.code ++ bytes).length := by
    intro definition member
    have low := inside definition member
    rw [List.length_append]
    omega
  cases grows with
  | @label label defined silent unused room =>
    refine ⟨?_, bounded, ?_, ?_, ?_, ?_, ?_, spaced, sparse⟩
    · simpa [silent] using emitted
    · rw [List.length_append]
      exact room
    · rw [List.map_append]
      exact List.nodup_append.mpr ⟨distinct, List.nodup_singleton _, by simpa using unused⟩
    · refine List.pairwise_append.mpr ⟨ascending, List.pairwise_singleton _ _, ?_⟩
      intro earlier member later last
      rw [List.mem_singleton.mp last]
      exact inside earlier member
    · refine List.forall_mem_append.mpr ⟨inside, ?_⟩
      exact List.forall_mem_singleton.mpr (Nat.le_refl _)
    · simpa using waits []
  | @bytes bytes operands room =>
    refine ⟨?_, ?_, few, distinct, ascending, longer bytes, waits bytes, spaced, ?_⟩
    · simp [operands, emitted]
    · rwa [List.length_append]
    · rw [List.length_append]
      exact Nat.le_add_right_of_le sparse
  | @use register label read named room =>
    have operands : line.operands =
        [.ok (.byte 0x82), .ok (.byte register), .ok (.label label)] := by
      rw [SourceLine.operands, read]
      rfl
    refine ⟨?_, ?_, few, distinct, ascending, longer _, ?_, ?_, ?_⟩
    · simp [operands, emitted]
    · rwa [List.length_append]
    · refine List.forall_mem_append.mpr ⟨waits _, List.forall_mem_singleton.mpr ?_⟩
      have low : register ≤ 7 := UInt8.le_iff_toNat_le.mpr (Nat.le_of_lt_succ named)
      have last : Reference.Waits (lines ++ line :: []) (draft.code ++ [0x82, register, 0] ++ [])
          ⟨label, draft.code.length + 2, line.number⟩ := .ldi read low emitted
      rwa [List.append_nil] at last
    · refine List.pairwise_append.mpr ⟨spaced, List.pairwise_singleton _ _, ?_⟩
      intro earlier member later last
      have within := (List.getElem?_eq_some_iff.mp (waiting earlier member).getElem?).1
      rw [List.mem_singleton.mp last]
      change earlier.address + 3 ≤ draft.code.length + 2
      omega
    · rw [List.length_append, List.length_append]
      change 3 * (_ + 1) ≤ _ + 3
      omega

end Draft

/-- The draft of lines that are all accepted keeps to all of this. -/
theorem Layout.orderly_addAll {front lines : List SourceLine} {layout laid : Layout}
    (sound : layout.Sound) (orderly : layout.draft.Orderly front)
    (accepted : lines.foldlM Layout.add layout = .ok laid) :
    laid.draft.Orderly (front ++ lines) := by
  induction lines generalizing front layout with
  | nil =>
    cases accepted
    rwa [List.append_nil]
  | cons line later ih =>
    rw [List.foldlM_cons] at accepted
    cases first : layout.add line with
    | error diagnostic => rw [first] at accepted; contradiction
    | ok added =>
      rw [first] at accepted
      have grown := orderly.grow (sound.grows first)
      have rest := ih (sound.add first) grown accepted
      rwa [List.append_assoc] at rest

theorem orderly_of_firstPass {lines : List SourceLine} {laid : Layout}
    (accepted : firstPass lines = .ok laid) : laid.draft.Orderly lines :=
  Layout.orderly_addAll Layout.sound_empty Draft.orderly_empty accepted

theorem sourceLines_ne_nil (number : Nat) (source : List UInt8) :
    sourceLines number source ≠ [] := by
  induction source using source_induction with
  | last text clear => simp [sourceLines_last number clear]
  | next text rest clear _ => simp [sourceLines_next number rest clear]

namespace Assembler

theorem foldlM_feed_next (assembler : Assembler) (text rest : List UInt8) :
    (text ++ newline :: rest).foldlM feed assembler =
      ((text.foldlM feed assembler).bind endLine).bind
        fun ended => rest.foldlM feed { ended with line := ended.line + 1 } := by
  rw [List.foldlM_append]
  cases text.foldlM feed assembler with
  | error refusal => rfl
  | ok fed =>
    change (newline :: rest).foldlM feed fed = fed.endLine.bind _
    rw [List.foldlM_cons, feed, if_pos rfl]
    cases fed.endLine <;> rfl

/-- Where some of a source has been read, the draft is that of the lines that have ended. -/
theorem exists_laid {layout : Layout} (sound : layout.Sound) (number : Nat)
    (notices : List Notice) {source : List UInt8} {reached : Assembler}
    (read : source.foldlM feed ⟨number, false, [], layout.draft, notices⟩ = .ok reached) :
    ∃ laid, (sourceLines number source).dropLast.foldlM Layout.add layout = .ok laid ∧
      reached.draft = laid.draft := by
  induction source using source_induction generalizing layout number notices with
  | last text clear =>
    rw [foldlM_feed_line _ rfl (Nat.zero_le _) clear] at read
    split at read
    · cases read
      rw [sourceLines_last number clear]
      exact ⟨layout, rfl, rfl⟩
    · cases read
  | next text rest clear ih =>
    rw [foldlM_feed_next, read_line sound number notices clear] at read
    rw [sourceLines_next number rest clear,
      List.dropLast_cons_of_ne_nil (sourceLines_ne_nil (number + 1) rest), List.foldlM_cons]
    dsimp only at read
    cases accepted : layout.add ⟨number, text.takeWhile (· != commentSign)⟩ with
    | error diagnostic =>
      rw [accepted] at read
      cases read
    | ok added =>
      rw [accepted] at read
      exact ih (sound.add accepted) (number + 1) _ read

/-- What has been read of a source leaves the draft in order, be it up to the end or not. -/
theorem orderly_of_foldlM {source : List UInt8} {reached : Assembler}
    (read : source.foldlM feed .start = .ok reached) :
    reached.draft.Orderly (sourceLines 1 source).dropLast := by
  obtain ⟨laid, accepted, drafted⟩ := exists_laid Layout.sound_empty 1 [] read
  rw [drafted]
  exact orderly_of_firstPass accepted

theorem orderly_of_feedAll {source : List UInt8} {read : Assembler}
    (fed : start.feedAll source = .ok read) : read.draft.Orderly (sourceLines 1 source) := by
  rw [feedAll_start] at fed
  cases accepted : (sourceLines 1 source).foldlM Layout.add Layout.empty with
  | error diagnostic =>
    rw [accepted] at fed
    cases fed
  | ok laid =>
    rw [accepted] at fed
    cases fed
    exact orderly_of_firstPass accepted

end Assembler

/-- Bytes that are placed leave the references as they are. -/
theorem Draft.placeAll_plain {number : Nat} {draft placed : Draft}
    {operands : List (Except Cause Operand)} (plain : ∀ label, .ok (.label label) ∉ operands)
    (bounded : draft.code.length ≤ programCapacity)
    (made : draft.placeAll number operands = .ok placed) :
    placed.references = draft.references ∧
      draft.code.length + operands.length ≤ programCapacity := by
  induction operands generalizing draft with
  | nil =>
    cases made
    exact ⟨rfl, bounded⟩
  | cons operand rest ih =>
    have later (label : Label) : .ok (.label label) ∉ rest :=
      fun member => plain label (List.mem_cons_of_mem _ member)
    rcases operand with cause | value | label
    · cases made
    · cases emitted : draft.emit value with
      | error cause =>
        simp only [placeAll, place, emitted, bind, Except.bind] at made
        cases made
      | ok next =>
        simp only [placeAll, place, emitted, bind, Except.bind] at made
        obtain ⟨room, rfl⟩ := emit_eq_ok_iff.mp emitted
        obtain ⟨same, ends⟩ := ih later (by simpa using Nat.succ_le_of_lt room) made
        refine ⟨same, ?_⟩
        rw [List.length_append, List.length_singleton] at ends
        rw [List.length_cons]
        omega
    · exact absurd List.mem_cons_self (plain label)

/-- The label of an LDI has two bytes in front of it, and no label. -/
theorem two_bytes_of_use {line : List UInt8} {statement : Statement} {label : Label}
    {front rest : List (Except Cause Operand)} (read : Statement.read line = .ok statement)
    (used : statement.operands = front ++ .ok (.label label) :: rest) :
    front.length = 2 ∧ ∀ other, .ok (.label other) ∉ front := by
  have member : .ok (.label label) ∈ statement.operands := by simp [used]
  obtain ⟨word, rfl⟩ := eq_ldi_of_read read member
  have register (other : Label) : Except.ok (Operand.label other) ≠ (readRegister word).map .byte := by
    cases readRegister word <;> simp [Except.map]
  rw [Statement.operands] at used
  rcases front with _ | ⟨first, _ | ⟨second, _ | ⟨third, front⟩⟩⟩
  · cases used
  · injection used with _ used
    injection used with second
    exact absurd second.symm (register label)
  · injection used with first used
    injection used with second
    subst first second
    refine ⟨rfl, fun other member => ?_⟩
    rcases List.mem_cons.mp member with first | later
    · cases first
    · exact register other (List.mem_singleton.mp later)
  · simp at used

/-- A label that comes to be referred to finds a place for its reference. -/
theorem exists_refer {lines : List SourceLine} {draft placed : Draft}
    (orderly : draft.Orderly lines) {line : List UInt8} {statement : Statement}
    (read : Statement.read line = .ok statement) {label : Label}
    {front rest : List (Except Cause Operand)}
    (used : statement.operands = front ++ .ok (.label label) :: rest) {number : Nat}
    (made : draft.placeAll number front = .ok placed) :
    ∃ referring, placed.refer number label = .ok referring ∧ referring.references.length ≤ 85 := by
  obtain ⟨two, plain⟩ := two_bytes_of_use read used
  obtain ⟨same, room⟩ := Draft.placeAll_plain plain orderly.bounded made
  have sparse := orderly.sparse
  have few : placed.references.length ≤ 84 := by
    rw [same]
    unfold programCapacity at room
    omega
  have free : placed.references.length < maxReferences := Nat.lt_of_le_of_lt few (by decide)
  rw [Draft.refer, if_pos free]
  refine ⟨_, rfl, ?_⟩
  rw [List.length_append]
  exact Nat.succ_le_succ few

end LS8.Assembly
