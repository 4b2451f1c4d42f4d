import LS8.Proofs.Assembly.Resolving
import LS8.Proofs.Assembly.Streaming

/-! Execution of assembled programs. A source of instruction, label and blank lines is assembled
to its instructions one behind the other, so a sweep of the program finds the instructions that
were written, and a machine that stands at one of them attempts that one. -/
namespace LS8.Assembly

/-- What an assembled source was laid out to. -/
theorem assemble_eq_ok {source : List UInt8} {program : Program}
    (assembled : (assemble source).result = .ok program) :
    ∃ read laid, Assembler.start.feedAll source = .ok read ∧ read.draft = laid.draft ∧
      (sourceLines 1 source).foldlM Layout.add Layout.empty = .ok laid ∧
      secondPass laid = .ok program := by
  have fed := Assembler.feedAll_start source
  cases added : (sourceLines 1 source).foldlM Layout.add Layout.empty with
  | error diagnostic =>
    rw [added] at fed
    rw [assemble, fed] at assembled
    contradiction
  | ok laid =>
    rw [added] at fed
    rw [assemble, fed] at assembled
    refine ⟨_, laid, fed, rfl, rfl, ?_⟩
    rw [← link_draft]
    exact assembled

/-- An assembled program fits in memory. -/
theorem length_le_of_assembled {source : List UInt8} {program : Program}
    (assembled : (assemble source).result = .ok program) : program.length ≤ programCapacity := by
  obtain ⟨-, laid, -, -, accepted, second⟩ := assemble_eq_ok assembled
  have bytes := (becomes_of_mapM second).length_eq
  rw [List.length_map] at bytes
  rw [← bytes]
  exact (Layout.sound_empty.addAll accepted).bounded

/-- A label marks the next instruction that is written behind it, or the end. -/
def Definition.Marks (lines : List SourceLine) (starts : List Nat) (ending : Nat)
    (definition : Definition) : Prop :=
  ∃ before line after, lines = before ++ line :: after ∧
    line.label? = some definition.label ∧
    definition.address = starts.getD (before.filterMap SourceLine.phrase?).length ending

theorem Definition.Marks.address_mem {lines : List SourceLine} {starts : List Nat} {ending : Nat}
    {definition : Definition} (marks : definition.Marks lines starts ending) :
    definition.address ∈ starts ∨ definition.address = ending := by
  obtain ⟨before, _, _, -, -, address⟩ := marks
  rw [address, List.getD_eq_getElem?_getD]
  cases start : starts[(before.filterMap SourceLine.phrase?).length]? with
  | none => exact .inr rfl
  | some start => exact .inl (List.mem_of_getElem? ‹_›)

section
variable {labels : List Definition} {phrases : List Phrase} {unlinked : List Unlinked}
  {instructions : List Instruction}

theorem counted_of_gives (given : List.Forall₂ Phrase.Gives phrases unlinked) :
    ∀ each ∈ unlinked, each.operands.length = each.opcode.operandCount := by
  induction given with
  | nil => exact List.forall_mem_nil _
  | cons gives _ ih => exact List.forall_mem_cons.mpr ⟨gives.length_operands, ih⟩

theorem means_of_gives (given : List.Forall₂ Phrase.Gives phrases unlinked)
    (links : List.Forall₂ (Unlinked.Links labels) unlinked instructions) :
    List.Forall₂ (Phrase.Means labels) phrases instructions := by
  induction given generalizing instructions with
  | nil =>
    cases links
    exact .nil
  | cons gives _ ih =>
    cases links with
    | cons link links => exact .cons (Phrase.means_of_links gives link) (ih links)

theorem registered_of_means (means : List.Forall₂ (Phrase.Means labels) phrases instructions) :
    ∀ instruction ∈ instructions, instruction.Registered := by
  induction means with
  | nil => exact List.forall_mem_nil _
  | cons first _ ih => exact List.forall_mem_cons.mpr ⟨first.registered, ih⟩

/-- A label that stands behind some instructions marks where they end when all are placed. -/
theorem Layout.Spells.marks {layout : Layout} {lines : List SourceLine}
    (spells : layout.Spells lines unlinked)
    (links : List.Forall₂ (Unlinked.Links labels) unlinked instructions)
    {definition : Definition} (member : definition ∈ layout.labels) :
    definition.Marks lines ((place 0 instructions).map Placed.address)
      (instructions.flatMap Instruction.encode).length := by
  obtain ⟨before, line, after, split, named, address⟩ := spells.addresses definition member
  refine ⟨before, line, after, split, named, ?_⟩
  generalize count : (before.filterMap SourceLine.phrase?).length = number at address ⊢
  have enough : number ≤ instructions.length := by
    rw [← links.length_eq, ← count]
    exact spells.length_phrases_le split
  have start := getD_address_place 0 (instructions.take number) (instructions.drop number)
  rw [List.take_append_drop, List.length_take_of_le enough, Nat.zero_add, Nat.zero_add] at start
  rw [start, address]
  exact length_flatMap_links (List.forall₂_take number links)

end

/-- Where a machine stands at an instruction of a program that is in memory, its step attempts
that instruction. -/
theorem stepsAt_place {instructions : List Instruction}
    (registered : ∀ instruction ∈ instructions, instruction.Registered) {machine : Machine}
    (running : machine.halted = false)
    (loaded : instructions.flatMap Instruction.encode <+: machine.memory.toList) {index : Nat}
    (inside : index < (place 0 instructions).length)
    (standing : machine.counter.toNat = (place 0 instructions)[index].address) :
    machine.StepsAt (place 0 instructions)[index].instruction
      (((place 0 instructions).map Placed.address).getD (index + 1)
        (instructions.flatMap Instruction.encode).length) := by
  obtain ⟨front, back, split, length, start⟩ := getElem_place inside
  generalize (place 0 instructions)[index] = placed at *
  have next := getD_address_place 0 (front ++ [placed.instruction]) back
  rw [List.append_assoc, List.singleton_append, ← split, List.length_append, length,
    List.length_singleton, Nat.zero_add, Nat.zero_add, List.flatMap_append, List.length_append,
    List.flatMap_singleton] at next
  rw [next]
  have member : placed.instruction ∈ instructions := by
    rw [split]
    exact List.mem_append_right _ List.mem_cons_self
  rw [split, List.flatMap_append, List.flatMap_cons] at loaded
  refine Machine.stepsAt_of_prefix (registered _ member) running loaded ?_
  rw [standing, start, Nat.zero_add]

/-- What is assembled is what is executed. -/
theorem assembled_is_executed {source : List UInt8} {program : Program}
    (assembled : (assemble source).result = .ok program)
    (plain : ∀ line ∈ sourceLines 1 source, ∀ value, line.read ≠ .ok (.byte value)) :
    ∃ (read : Assembler) (swept : List Placed),
      Assembler.start.feedAll source = .ok read ∧ sweep 0 program = some swept ∧
      List.Forall₂ (Phrase.Means read.draft.definitions)
        ((sourceLines 1 source).filterMap SourceLine.phrase?) (swept.map Placed.instruction) ∧
      read.draft.definitions.map Definition.label =
        (sourceLines 1 source).filterMap SourceLine.label? ∧
      (∀ definition ∈ read.draft.definitions,
        definition.Marks (sourceLines 1 source) (swept.map Placed.address) program.length ∧
        (definition.address ∈ swept.map Placed.address ∨
          definition.address = program.length)) ∧
      ∀ (machine : Machine) (index : Nat) (inside : index < swept.length),
        machine.halted = false → program <+: machine.memory.toList →
        machine.counter.toNat = swept[index].address →
        machine.StepsAt swept[index].instruction
          ((swept.map Placed.address).getD (index + 1) program.length) := by
  obtain ⟨read, laid, fed, draft, added, linked⟩ := assemble_eq_ok assembled
  obtain ⟨unlinked, spells⟩ := Layout.spells_empty.addAll plain added
  rw [List.nil_append, List.nil_append] at spells
  have become := becomes_of_mapM linked
  rw [spells.cells] at become
  obtain ⟨instructions, rfl, links⟩ := exists_links (counted_of_gives spells.given) become
  have means := means_of_gives spells.given links
  have definitions : read.draft.definitions = laid.labels := congrArg Draft.definitions draft
  refine ⟨read, place 0 instructions, fed, sweep_flatMap_encode 0 instructions, ?_, ?_, ?_, ?_⟩
  · rw [map_instruction_place, definitions]
    exact means
  · rw [definitions]
    exact spells.labels
  · intro definition member
    rw [definitions] at member
    have marks := spells.marks links member
    exact ⟨marks, marks.address_mem⟩
  · intro machine index inside running loaded standing
    exact stepsAt_place (registered_of_means means) running loaded inside standing

/-- A source with a label that is used before it is defined. -/
def forward : List UInt8 :=
  "LDI R3, end\nadd R1,r6\nend:\nHLT # stop".toList.map Char.toUInt8

theorem assembled_is_executed_forward :
    (assemble forward).result = .ok [0x82, 3, 6, 0xa0, 1, 6, 1] ∧
    ∃ read : Assembler, Assembler.start.feedAll forward = .ok read ∧
      read.draft.definitions.map (fun definition => String.ofList definition.label.name) =
        ["end"] ∧
      (∀ definition ∈ read.draft.definitions,
        definition.address ∈ [0, 3, 6] ∨ definition.address = 7) ∧
      List.Forall₂ (Phrase.Means read.draft.definitions)
        [⟨['L', 'D', 'I'], [['R', '3'], ['e', 'n', 'd']]⟩,
          ⟨['a', 'd', 'd'], [['R', '1'], ['r', '6']]⟩, ⟨['H', 'L', 'T'], []⟩]
        [.ldi 3 6, .add 1 6, .hlt] ∧
      let machine := (Machine.fresh.load [0x82, 3, 6, 0xa0, 1, 6, 1]).machine
      machine.StepsAt (.ldi 3 6) 3 ∧ { machine with counter := 3 }.StepsAt (.add 1 6) 6 := by
  have lines : sourceLines 1 forward = [⟨1, forward.take 11⟩, ⟨2, (forward.drop 12).take 9⟩,
      ⟨3, (forward.drop 22).take 4⟩, ⟨4, (forward.drop 27).take 4⟩] := rfl
  have loads : SourceLine.read ⟨1, forward.take 11⟩ = .ok (.instruction 0x82
      [.ok (.byte 3), .ok (.label ⟨['e', 'n', 'd'], by decide, by decide⟩)]) := rfl
  have adds : SourceLine.read ⟨2, (forward.drop 12).take 9⟩ =
      .ok (.instruction 0xa0 [.ok (.byte 1), .ok (.byte 6)]) := rfl
  have names : SourceLine.read ⟨3, (forward.drop 22).take 4⟩ =
      .ok (.label ⟨['e', 'n', 'd'], by decide, by decide⟩) := rfl
  have halts : SourceLine.read ⟨4, (forward.drop 27).take 4⟩ = .ok (.instruction 1 []) := rfl
  have assembled : (assemble forward).result = .ok [0x82, 3, 6, 0xa0, 1, 6, 1] := rfl
  have plain : ∀ line ∈ sourceLines 1 forward, ∀ value, line.read ≠ .ok (.byte value) := by
    rw [lines]
    simp [loads, adds, names, halts]
  obtain ⟨read, swept, fed, found, means, labels, addresses, steps⟩ :=
    assembled_is_executed assembled plain
  have placed : sweep 0 [0x82, 3, 6, 0xa0, 1, 6, 1] =
      some [⟨0, .ldi 3 6⟩, ⟨3, .add 1 6⟩, ⟨6, .hlt⟩] :=
    sweep_flatMap_encode 0 [.ldi 3 6, .add 1 6, .hlt]
  obtain rfl := Option.some.inj (found.symm.trans placed)
  have loaded : [0x82, 3, 6, 0xa0, 1, 6, 1] <+:
      (Machine.fresh.load [0x82, 3, 6, 0xa0, 1, 6, 1]).machine.memory.toList :=
    Machine.load_eq_ok rfl
  refine ⟨assembled, read, fed, ?_, ?_, means, steps _ 0 (by decide) rfl loaded rfl,
    steps _ 1 (by decide) rfl loaded rfl⟩
  · have listed := congrArg (List.map fun label : Label => String.ofList label.name) labels
    rw [List.map_map] at listed
    exact listed
  · exact fun definition member => (addresses definition member).2

end LS8.Assembly
