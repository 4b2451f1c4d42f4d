import LS8.Proofs.Assembly.Bounds

/-! Programs of instruction lines. A source without binary literals is laid out as its
instructions one behind the other, with labels only between them. Which operand bytes are still
labels does not matter to this. -/
namespace LS8.Assembly

/-- An instruction whose operands may still be labels. -/
structure Unlinked where
  opcode : Opcode
  operands : List Operand

def Unlinked.parts (unlinked : Unlinked) : List Operand :=
  .byte unlinked.opcode.byte :: unlinked.operands

/-- The instruction that a phrase gives before any label is known. -/
structure Phrase.Gives (phrase : Phrase) (unlinked : Unlinked) : Prop where
  opcode : Opcode.ofMnemonic? phrase.mnemonic = some unlinked.opcode
  counted : phrase.words.length = unlinked.opcode.operandCount
  operands : List.zipWith Shape.read (shapes unlinked.opcode) phrase.words =
    unlinked.operands.map .ok

theorem Phrase.Gives.length_operands {phrase : Phrase} {unlinked : Unlinked}
    (gives : phrase.Gives unlinked) : unlinked.operands.length = unlinked.opcode.operandCount := by
  have length := congrArg List.length gives.operands
  rw [List.length_zipWith, List.length_map, length_shapes, gives.counted, Nat.min_self] at length
  exact length.symm

/-- A label is defined by a line, at the address behind the instructions of the lines before. -/
def Definition.StandsIn (lines : List SourceLine) (unlinked : List Unlinked)
    (definition : Definition) : Prop :=
  ∃ before line after, lines = before ++ line :: after ∧
    line.label? = some definition.label ∧
    definition.address = ((unlinked.take (before.filterMap SourceLine.phrase?).length).flatMap
      Unlinked.parts).length

/-- A layout of lines is their instructions, and their labels stand between these. -/
structure Layout.Spells (layout : Layout) (lines : List SourceLine) (unlinked : List Unlinked) :
    Prop where
  given : List.Forall₂ Phrase.Gives (lines.filterMap SourceLine.phrase?) unlinked
  cells : layout.cells.map Cell.operand = unlinked.flatMap Unlinked.parts
  labels : layout.labels.map Definition.label = lines.filterMap SourceLine.label?
  addresses : ∀ definition ∈ layout.labels, definition.StandsIn lines unlinked

namespace Layout

theorem spells_empty : empty.Spells [] [] where
  given := .nil
  cells := rfl
  labels := rfl
  addresses := List.forall_mem_nil _

variable {layout : Layout} {lines : List SourceLine} {unlinked : List Unlinked}
  {line : SourceLine}

theorem Spells.length_cells (spells : layout.Spells lines unlinked) :
    layout.cells.length = (unlinked.flatMap Unlinked.parts).length := by
  rw [← spells.cells, List.length_map]

/-- The lines in front of a line have no more instructions than all lines. -/
theorem Spells.length_phrases_le (spells : layout.Spells lines unlinked)
    {before after : List SourceLine} (split : lines = before ++ line :: after) :
    (before.filterMap SourceLine.phrase?).length ≤ unlinked.length := by
  rw [← spells.given.length_eq, split, List.filterMap_append, List.length_append]
  exact Nat.le_add_right _ _

/-- Later lines do not move the labels of earlier ones. -/
theorem Spells.stands_earlier (spells : layout.Spells lines unlinked) {definition : Definition}
    (member : definition ∈ layout.labels) (more : List Unlinked) :
    definition.StandsIn (lines ++ [line]) (unlinked ++ more) := by
  obtain ⟨before, labelled, after, split, named, address⟩ := spells.addresses definition member
  refine ⟨before, labelled, after ++ [line], ?_, named, ?_⟩
  · rw [split, List.append_assoc, List.cons_append]
  · rw [List.take_append_of_le_length (spells.length_phrases_le split)]
    exact address

/-- A line that is neither an instruction nor a label adds nothing. -/
theorem Spells.blank (spells : layout.Spells lines unlinked) (unlisted : line.phrase? = none)
    (unnamed : line.label? = none) :
    (layout.append line.number (.bytes [])).Spells (lines ++ [line]) (unlinked ++ []) where
  given := by simpa [unlisted] using spells.given
  cells := by simpa [append] using spells.cells
  labels := by simpa [append, unnamed] using spells.labels
  addresses := fun _ member => spells.stands_earlier member []

theorem Spells.label (spells : layout.Spells lines unlinked) {label : Label}
    (unlisted : line.phrase? = none) (named : line.label? = some label) :
    (layout.append line.number (.label label)).Spells (lines ++ [line]) (unlinked ++ []) where
  given := by simpa [unlisted] using spells.given
  cells := by simpa [append] using spells.cells
  labels := by simp [append, named, spells.labels]
  addresses := by
    intro definition member
    rcases List.mem_append.mp member with earlier | new
    · exact spells.stands_earlier earlier []
    · obtain rfl := List.mem_singleton.mp new
      refine ⟨lines, line, [], rfl, named, ?_⟩
      rw [spells.given.length_eq, List.append_nil, List.take_length]
      exact spells.length_cells

theorem Spells.instruction (spells : layout.Spells lines unlinked) {phrase : Phrase}
    {more : Unlinked} (listed : line.phrase? = some phrase) (unnamed : line.label? = none)
    (gives : phrase.Gives more) :
    (layout.append line.number (.bytes more.parts)).Spells (lines ++ [line])
      (unlinked ++ [more]) where
  given := by
    rw [List.filterMap_append, List.filterMap_cons_some listed, List.filterMap_nil]
    exact List.rel_append spells.given (.cons gives .nil)
  cells := by simp [append, spells.cells, Function.comp_def]
  labels := by simpa [append, unnamed] using spells.labels
  addresses := fun _ member => spells.stands_earlier member [more]

/-- Each accepted line adds its instruction or its label, unless it is a binary literal. -/
theorem Spells.add (spells : layout.Spells lines unlinked) {added : Layout}
    (plain : ∀ value, line.read ≠ .ok (.byte value)) (accepted : layout.add line = .ok added) :
    ∃ more, added.Spells (lines ++ [line]) (unlinked ++ more) := by
  obtain ⟨statement, contribution, stated, contributed, rfl⟩ := add_eq_ok accepted
  have read := read_eq_phrase (read_eq_ok stated).2
  cases statement with
  | byte value => exact absurd stated (plain value)
  | blank =>
    obtain ⟨unlisted, -⟩ | ⟨_, _, _, _, _, same⟩ := read
    · cases contributed
      exact ⟨[], spells.blank unlisted (by rw [SourceLine.label?, stated])⟩
    · cases same
  | label label =>
    obtain ⟨unlisted, -⟩ | ⟨_, _, _, _, _, same⟩ := read
    · obtain rfl := contribution_label_eq_ok contributed
      exact ⟨[], spells.label unlisted (by rw [SourceLine.label?, stated])⟩
    · cases same
  | instruction byte operands =>
    obtain ⟨-, other⟩ | ⟨phrase, opcode, listed, mnemonic, counted, same⟩ := read
    · exact absurd rfl (other byte operands)
    · cases same
      obtain ⟨placed, fitted, rfl⟩ := contribution_eq_ok (fun _ named => by cases named) contributed
      obtain ⟨placing, -⟩ := fit_eq_ok fitted
      obtain ⟨first, operands, rfl, opener, later⟩ := List.map_eq_cons_iff.mp placing.symm
      cases opener
      have gives : phrase.Gives ⟨opcode, operands⟩ := ⟨mnemonic, counted, later.symm⟩
      exact ⟨_, spells.instruction listed (by rw [SourceLine.label?, stated]) gives⟩

theorem Spells.addAll (spells : layout.Spells lines unlinked) {later : List SourceLine}
    (plain : ∀ line ∈ later, ∀ value, line.read ≠ .ok (.byte value)) {laid : Layout}
    (accepted : later.foldlM Layout.add layout = .ok laid) :
    ∃ more, laid.Spells (lines ++ later) (unlinked ++ more) := by
  induction later generalizing layout lines unlinked with
  | nil =>
    cases accepted
    exact ⟨[], by simpa using spells⟩
  | cons line later ih =>
    rw [List.foldlM_cons] at accepted
    cases first : layout.add line with
    | error diagnostic => rw [first] at accepted; contradiction
    | ok added =>
      rw [first] at accepted
      obtain ⟨more, spells⟩ := spells.add (plain line List.mem_cons_self) first
      obtain ⟨rest, spells⟩ :=
        ih spells (fun line member => plain line (List.mem_cons_of_mem _ member)) accepted
      refine ⟨more ++ rest, ?_⟩
      rw [← List.append_assoc]
      simpa only [List.append_assoc, List.singleton_append] using spells

end Layout
end LS8.Assembly
