import LS8.Proofs.Assembly.Growing

/-! When there are too many labels. Of all that a line can be refused for, this is what a label is
refused for when it is new and there is no place left for it, and nothing else is: not a word that
cannot be read, not a byte that does not fit, and not a use of a label. -/
namespace LS8.Assembly

theorem map_ne_tooManyLabels {α β : Type} (f : α → β) {result : Except Cause α}
    (other : result ≠ .error .tooManyLabels) : result.map f ≠ .error .tooManyLabels := by
  cases result with
  | ok value => simp [Except.map]
  | error cause => simpa [Except.map] using other

theorem Label.read_ne_tooManyLabels (text : List Char) :
    Label.read text ≠ .error .tooManyLabels := by
  unfold Label.read
  split
  · split <;> simp
  · simp

theorem Shape.read_ne_tooManyLabels (shape : Shape) (word : List Char) :
    shape.read word ≠ .error .tooManyLabels := by
  cases shape with
  | register =>
    refine map_ne_tooManyLabels _ fun refused => ?_
    cases (readRegister_eq_error_iff.mp refused).2
  | immediate =>
    rw [Shape.read, readImmediate]
    split
    · split <;> simp
    · exact map_ne_tooManyLabels _ (Label.read_ne_tooManyLabels word)

theorem Statement.ofText_ne_tooManyLabels (text : List Char) :
    Statement.ofText text ≠ .error .tooManyLabels := by
  cases text with
  | nil => simp [ofText]
  | cons first rest =>
    simp only [ofText]
    split
    · unfold ofDigits
      split
      · split <;> simp
      · simp
    split
    · split
      · exact map_ne_tooManyLabels _ (Label.read_ne_tooManyLabels _)
      · unfold ofInstruction
        dsimp only
        split
        · simp
        · split <;> simp
    · simp

theorem SourceLine.read_ne_tooManyLabels (line : SourceLine) :
    line.read ≠ .error .tooManyLabels := by
  unfold SourceLine.read Statement.read
  split
  · simp
  · split
    · simp
    · exact Statement.ofText_ne_tooManyLabels _

/-- None of the operands of a line is refused for it either. -/
theorem SourceLine.tooManyLabels_not_mem_operands (line : SourceLine) :
    .error .tooManyLabels ∉ line.operands := by
  unfold SourceLine.operands
  split
  · exact List.not_mem_nil
  · rename_i statement stated
    intro member
    cases statement with
    | blank | label _ => cases member
    | byte value => simp [Statement.operands] at member
    | instruction opcode operands =>
      obtain ⟨-, other⟩ | ⟨phrase, _, -, -, -, same⟩ := read_eq_phrase (read_eq_ok stated).2
      · exact other opcode operands rfl
      cases same
      rcases List.mem_cons.mp member with first | later
      · cases first
      · obtain ⟨index, inside, read⟩ := List.mem_iff_getElem.mp later
        rw [List.getElem_zipWith] at read
        exact Shape.read_ne_tooManyLabels _ _ read

theorem fit_ne_tooManyLabels {address : Nat} {operands : List (Except Cause Operand)}
    (other : .error .tooManyLabels ∉ operands) : fit address operands ≠ .error .tooManyLabels := by
  induction operands generalizing address with
  | nil => simp [fit]
  | cons operand rest ih =>
    have later : fit (address + 1) rest ≠ .error .tooManyLabels :=
      ih (List.not_mem_of_not_mem_cons other)
    cases operand with
    | error cause =>
      rw [fit]
      intro same
      cases same
      exact other List.mem_cons_self
    | ok operand =>
      rw [fit]
      split
      · exact map_ne_tooManyLabels _ later
      · simp

/-- A line is refused for it if and only if it defines a label that is new and has no place. -/
theorem SourceLine.contribution_eq_tooManyLabels_iff {line : SourceLine} {emitted : Nat}
    {defined : List Label} : line.contribution emitted defined = .error .tooManyLabels ↔
      ∃ label, line.label? = some label ∧ label ∉ defined ∧ maxLabels ≤ defined.length := by
  have operands := line.tooManyLabels_not_mem_operands
  have read := line.read_ne_tooManyLabels
  rw [SourceLine.contribution]
  cases stated : line.read with
  | error cause =>
    rw [stated] at read
    simpa [SourceLine.label?, stated] using read
  | ok statement =>
    rw [SourceLine.operands, stated] at operands
    dsimp only at operands
    by_cases named : ∃ label, statement = .label label
    · obtain ⟨label, rfl⟩ := named
      simp only [SourceLine.label?, stated, Statement.contribution, Option.some.injEq,
        exists_eq_left']
      split
      · simp_all
      · split
        · simp_all
        · simp_all
    · have unnamed : ∀ label, statement ≠ .label label := fun label same => named ⟨label, same⟩
      have fitted : (fit emitted statement.operands).map Contribution.bytes ≠
          .error .tooManyLabels :=
        map_ne_tooManyLabels _ (fit_ne_tooManyLabels operands)
      have none : line.label? = none := by
        rw [SourceLine.label?, stated]
        cases statement with
        | label label => exact absurd rfl (unnamed label)
        | _ => rfl
      dsimp only
      rw [contribution_eq_fit _ _ unnamed]
      simp [fitted, none]

/-- Reading stops at the first line that is refused. -/
theorem Layout.foldlM_add_eq_error_iff {layout : Layout} {lines : List SourceLine}
    {diagnostic : Diagnostic} : lines.foldlM Layout.add layout = .error diagnostic ↔
      ∃ front line back laid, lines = front ++ line :: back ∧
        front.foldlM Layout.add layout = .ok laid ∧ laid.add line = .error diagnostic := by
  constructor
  · intro refused
    induction lines generalizing layout with
    | nil => cases refused
    | cons first rest ih =>
      rw [List.foldlM_cons] at refused
      cases accepted : layout.add first with
      | error refusal =>
        rw [accepted] at refused
        exact ⟨[], first, rest, layout, rfl, rfl, accepted.trans refused⟩
      | ok added =>
        rw [accepted] at refused
        obtain ⟨front, line, back, laid, rfl, before, stopped⟩ := ih refused
        refine ⟨first :: front, line, back, laid, rfl, ?_, stopped⟩
        rw [List.foldlM_cons, accepted]
        exact before
  · rintro ⟨front, line, back, laid, rfl, before, refused⟩
    rw [List.foldlM_append, before]
    change (line :: back).foldlM Layout.add laid = _
    rw [List.foldlM_cons, refused]
    rfl

/-- The first line that is refused defines a label that none of the lines in front defines, and
these define as many labels as there may be. -/
inductive Crowded : List SourceLine → Nat → Prop
  | line {front back : List SourceLine} {line : SourceLine} {label : Label} :
    (firstPass front).isOk = true → line.label? = some label →
    label ∉ front.filterMap SourceLine.label? →
    (front.filterMap SourceLine.label?).length = maxLabels →
    Crowded (front ++ line :: back) line.number

theorem firstPass_eq_tooManyLabels_iff {lines : List SourceLine} {number : Nat} :
    firstPass lines = .error ⟨number, .tooManyLabels⟩ ↔ Crowded lines number := by
  constructor
  · intro refused
    obtain ⟨front, line, back, laid, rfl, before, refused⟩ :=
      Layout.foldlM_add_eq_error_iff.mp refused
    have accepted : firstPass front = .ok laid := before
    have labels := (Layout.covers_of_firstPass accepted).1.labels
    have few := (orderly_of_firstPass accepted).few
    rw [Layout.add] at refused
    split at refused
    · rename_i contributed
      cases refused
      obtain ⟨label, defined, unused, full⟩ :=
        SourceLine.contribution_eq_tooManyLabels_iff.mp contributed
      rw [← labels] at unused full
      refine .line (by rw [accepted]; rfl) defined unused (Nat.le_antisymm ?_ full)
      rw [labels, List.length_map]
      exact few
    · cases refused
  · rintro ⟨ok, defined, unused, full⟩
    rename_i front back line label
    cases accepted : firstPass front with
    | error diagnostic =>
      rw [accepted] at ok
      cases ok
    | ok laid =>
      have labels := (Layout.covers_of_firstPass accepted).1.labels
      rw [labels] at unused full
      have refused : line.contribution laid.cells.length (laid.labels.map Definition.label) =
          .error .tooManyLabels :=
        SourceLine.contribution_eq_tooManyLabels_iff.mpr ⟨label, defined, unused, full.ge⟩
      refine Layout.foldlM_add_eq_error_iff.mpr ⟨front, line, back, laid, rfl, accepted, ?_⟩
      rw [Layout.add, refused]

/-- Linking fails for other reasons. -/
theorem link_ne_tooManyLabels (definitions : List Definition) (references : List Reference)
    (code : Program) (number : Nat) :
    (link definitions references code).result ≠ .error ⟨number, .tooManyLabels⟩ := by
  induction references generalizing code with
  | nil => simp [link]
  | cons reference rest ih =>
    rw [link]
    split
    · simp
    · split
      · exact ih _
      · simp

theorem assemble_eq_tooManyLabels_iff {source : List UInt8} {number : Nat} :
    (assemble source).result = .error ⟨number, .tooManyLabels⟩ ↔
      Crowded (sourceLines 1 source) number := by
  rw [← firstPass_eq_tooManyLabels_iff, assemble_eq_outcome, Layout.outcome_saying, firstPass]
  cases (sourceLines 1 source).foldlM Layout.add Layout.empty with
  | error diagnostic => simp
  | ok laid => exact iff_of_false (link_ne_tooManyLabels _ _ _ number) (by simp)

end LS8.Assembly
