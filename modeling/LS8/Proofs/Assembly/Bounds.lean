import LS8.Proofs.Assembly.Phrase
import LS8.Proofs.Assembly.Placement

/-! Bounds of layouts. A use of a label comes with two more bytes of its instruction, and a
program has room for 256 bytes, so there are always references enough for the labels of one
more line. -/
namespace LS8.Assembly

/-- Only an operand that is to be an immediate can be a label. -/
theorem countP_isUse_zipWith_read (shapes : List Shape) (words : List (List Char)) :
    (List.zipWith Shape.read shapes words).countP isUse ≤ shapes.count .immediate := by
  induction shapes generalizing words with
  | nil => simp
  | cons shape shapes ih =>
    cases words with
    | nil => simp
    | cons word words =>
      have later := ih words
      rw [List.zipWith_cons_cons, List.countP_cons]
      cases shape with
      | register =>
        have number : isUse (Shape.register.read word) = false := by
          change isUse ((readRegister word).map .byte) = false
          cases readRegister word <;> rfl
        rw [number, List.count_cons_of_ne (by decide)]
        exact later
      | immediate =>
        rw [List.count_cons_self]
        split <;> omega

/-- An instruction takes three bytes for each label it may use. -/
theorem count_immediate_le (opcode : Opcode) :
    3 * (shapes opcode).count .immediate ≤ opcode.width := by
  cases opcode <;> decide

/-- A line that can be read has no more labels than one for each three of its bytes. -/
theorem uses_read {line : List UInt8} {statement : Statement}
    (read : Statement.read line = .ok statement) :
    3 * statement.operands.countP isUse ≤ statement.operands.length ∧
      statement.operands.length ≤ 3 := by
  cases statement with
  | blank | label _ => simp [Statement.operands]
  | byte value => simp [Statement.operands, isUse, Operand.isLabel]
  | instruction byte operands =>
    obtain ⟨-, other⟩ | ⟨phrase, opcode, -, -, counted, same⟩ := read_eq_phrase read
    · exact absurd rfl (other byte operands)
    · cases same
      have uses := countP_isUse_zipWith_read (shapes opcode) phrase.words
      have few := count_immediate_le opcode
      have wide : opcode.width ≤ 3 := Nat.succ_le_succ opcode.operandCount_le_two
      have opener : isUse (.ok (.byte opcode.byte)) = false := rfl
      have length : (List.zipWith Shape.read (shapes opcode) phrase.words).length + 1 =
          opcode.width := by
        rw [List.length_zipWith, counted, length_shapes, Nat.min_self, Opcode.width]
      rw [Statement.operands, List.countP_cons_of_neg (by simp [opener]), List.length_cons, length]
      omega

/-- The bytes that fit are those read, and they end where the program may. -/
theorem fit_eq_ok {address : Nat} {operands : List (Except Cause Operand)}
    {placed : List Operand} (fitted : fit address operands = .ok placed) :
    operands = placed.map .ok ∧ (address ≤ programCapacity →
      address + placed.length ≤ programCapacity) := by
  induction operands generalizing address placed with
  | nil =>
    cases fitted
    exact ⟨rfl, id⟩
  | cons operand rest ih =>
    cases operand with
    | error cause => cases fitted
    | ok operand =>
      rw [fit] at fitted
      split at fitted
      · rename_i space
        cases later : fit (address + 1) rest with
        | error cause => rw [later] at fitted; cases fitted
        | ok placed =>
          rw [later] at fitted
          cases fitted
          obtain ⟨rfl, ends⟩ := ih later
          refine ⟨rfl, fun _ => ?_⟩
          have := ends space
          rw [List.length_cons]
          omega
      · cases fitted

/-- Bytes fit where there is room for all of them. -/
theorem fit_map_ok {address : Nat} {placed : List Operand}
    (room : address + placed.length ≤ programCapacity) :
    fit address (placed.map .ok) = .ok placed := by
  induction placed generalizing address with
  | nil => rfl
  | cons operand rest ih =>
    rw [List.length_cons] at room
    have later : fit (address + 1) (rest.map .ok) = .ok rest := ih (by omega)
    rw [List.map_cons, fit, if_pos (by omega), later]
    rfl

theorem contribution_label_eq_ok {emitted : Nat} {defined : List Label} {label : Label}
    {contribution : Contribution}
    (added : (Statement.label label).contribution emitted defined = .ok contribution) :
    contribution = .label label := by
  simp only [Statement.contribution] at added
  split at added
  · contradiction
  split at added
  · exact (Except.ok.inj added).symm
  · contradiction

/-- Whatever is no label contributes the bytes that fit. -/
theorem contribution_eq_ok {emitted : Nat} {defined : List Label} {statement : Statement}
    {contribution : Contribution} (unnamed : ∀ label, statement ≠ .label label)
    (added : statement.contribution emitted defined = .ok contribution) :
    ∃ placed, fit emitted statement.operands = .ok placed ∧ contribution = .bytes placed := by
  rw [contribution_eq_fit _ _ unnamed] at added
  cases fitted : fit emitted statement.operands with
  | error cause =>
    rw [fitted] at added
    contradiction
  | ok placed =>
    rw [fitted] at added
    exact ⟨placed, rfl, (Except.ok.inj added).symm⟩

/-- What a statement adds does not depend on what is in front of it, if there is room for it
behind that. -/
theorem contribution_eq_of_room {emitted other : Nat} {defined others : List Label}
    {statement : Statement} {contribution : Contribution}
    (added : statement.contribution emitted defined = .ok contribution)
    (room : ∀ placed, contribution = .bytes placed → other + placed.length ≤ programCapacity)
    (fresh : ∀ label, contribution = .label label → label ∉ defined →
      label ∉ others ∧ others.length < maxLabels) :
    statement.contribution other others = .ok contribution := by
  by_cases named : ∃ label, statement = .label label
  · obtain ⟨label, rfl⟩ := named
    obtain rfl := contribution_label_eq_ok added
    have unused : label ∉ defined := by
      intro used
      rw [Statement.contribution, if_pos used] at added
      contradiction
    obtain ⟨free, few⟩ := fresh label rfl unused
    rw [Statement.contribution, if_neg free, if_pos few]
  · have unnamed : ∀ label, statement ≠ .label label := fun label same => named ⟨label, same⟩
    obtain ⟨placed, fitted, rfl⟩ := contribution_eq_ok unnamed added
    rw [contribution_eq_fit _ _ unnamed, (fit_eq_ok fitted).1, fit_map_ok (room placed rfl)]
    rfl

theorem read_eq_ok {line : SourceLine} {statement : Statement}
    (stated : line.read = .ok statement) :
    line.kept.length ≤ lineCapacity ∧ Statement.read line.kept = .ok statement := by
  rcases Nat.lt_or_ge lineCapacity line.kept.length with long | short
  · have refused := SourceLine.read_of_lt line.number long
    exact absurd (stated.symm.trans refused) nofun
  · exact ⟨short, (SourceLine.read_of_le line.number short).symm.trans stated⟩

namespace Layout

/-- What every layout of a source keeps to. -/
structure Sound (layout : Layout) : Prop where
  sparse : 3 * layout.uses ≤ layout.cells.length
  bounded : layout.cells.length ≤ programCapacity

theorem sound_empty : empty.Sound := ⟨by decide, by decide⟩

/-- One more line finds references for all of its labels, even if it is refused. -/
theorem Sound.room {layout : Layout} (sound : layout.Sound) {line : List UInt8}
    {statement : Statement} (read : Statement.read line = .ok statement) :
    layout.uses + statement.operands.countP isUse ≤ maxReferences := by
  have sparse := sound.sparse
  have bounded := sound.bounded
  have uses := uses_read read
  unfold programCapacity at bounded
  unfold maxReferences
  omega

/-- A line adds what it says and nothing that would go past the end of a program. -/
theorem Sound.append {layout : Layout} (sound : layout.Sound) (number : Nat)
    {line : List UInt8} {statement : Statement} (read : Statement.read line = .ok statement)
    {defined : List Label} {contribution : Contribution}
    (added : statement.contribution layout.cells.length defined = .ok contribution) :
    (layout.append number contribution).Sound := by
  by_cases named : ∃ label, statement = .label label
  · obtain ⟨label, rfl⟩ := named
    obtain rfl := contribution_label_eq_ok added
    exact ⟨sound.sparse, sound.bounded⟩
  · obtain ⟨placed, fitted, rfl⟩ :=
      contribution_eq_ok (fun label same => named ⟨label, same⟩) added
    obtain ⟨same, ends⟩ := fit_eq_ok fitted
    have uses := (uses_read read).1
    rw [same, List.countP_map, List.length_map] at uses
    have counted : placed.countP (isUse ∘ Except.ok) = placed.countP Operand.isLabel := rfl
    have sparse := sound.sparse
    have length : (layout.append number (.bytes placed)).cells.length =
        layout.cells.length + placed.length := by
      simp [Layout.append]
    constructor
    · rw [uses_append, length]
      omega
    · rw [length]
      exact ends sound.bounded

theorem add_eq_ok {layout added : Layout} {line : SourceLine}
    (accepted : layout.add line = .ok added) :
    ∃ statement contribution, line.read = .ok statement ∧
      statement.contribution layout.cells.length (layout.labels.map Definition.label) =
        .ok contribution ∧
      added = layout.append line.number contribution := by
  rw [Layout.add, SourceLine.contribution] at accepted
  cases stated : line.read with
  | error cause => simp [stated] at accepted
  | ok statement =>
    simp only [stated] at accepted
    cases contributed : statement.contribution layout.cells.length
        (layout.labels.map Definition.label) with
    | error cause => simp [contributed] at accepted
    | ok contribution =>
      simp only [contributed, Except.ok.injEq] at accepted
      exact ⟨statement, contribution, rfl, contributed, accepted.symm⟩

theorem Sound.add {layout added : Layout} (sound : layout.Sound) {line : SourceLine}
    (accepted : layout.add line = .ok added) : added.Sound := by
  obtain ⟨statement, contribution, stated, contributed, rfl⟩ := add_eq_ok accepted
  exact sound.append line.number (read_eq_ok stated).2 contributed

theorem Sound.addAll {layout laid : Layout} (sound : layout.Sound) {lines : List SourceLine}
    (accepted : lines.foldlM Layout.add layout = .ok laid) : laid.Sound := by
  induction lines generalizing layout with
  | nil =>
    cases accepted
    exact sound
  | cons line later ih =>
    rw [List.foldlM_cons] at accepted
    cases first : layout.add line with
    | error diagnostic => rw [first] at accepted; contradiction
    | ok added =>
      rw [first] at accepted
      exact ih (sound.add first) accepted

end Layout
end LS8.Assembly
