import LS8.Proofs.Assembly.Outline

/-! Other names for labels and other numbers for lines. The assembler compares names with each
other and copies numbers, and does nothing else with either, so an outline in which they are
replaced has the same outcome with them replaced. Different names have to stay different. -/
namespace LS8.Assembly

def Operand.rename (names : Label → Label) : Operand → Operand
  | byte value => .byte value
  | label name => .label (names name)

def Statement.rename (names : Label → Label) : Statement → Statement
  | blank => .blank
  | byte value => .byte value
  | label name => .label (names name)
  | instruction opcode operands =>
    .instruction opcode (operands.map (Except.map (Operand.rename names)))

def Contribution.rename (names : Label → Label) : Contribution → Contribution
  | bytes operands => .bytes (operands.map (Operand.rename names))
  | label name => .label (names name)

def Definition.rename (names : Label → Label) (definition : Definition) : Definition :=
  { definition with label := names definition.label }

def Notice.rename (names : Label → Label) : Notice → Notice
  | label name address => .label (names name) address
  | patched name target address => .patched (names name) target address

def Diagnostic.renumber (numbers : Nat → Nat) (diagnostic : Diagnostic) : Diagnostic :=
  { diagnostic with line := numbers diagnostic.line }

section
variable (numbers : Nat → Nat) (names : Label → Label)

def Saying.relabel (saying : Saying) : Saying :=
  ⟨numbers saying.number, saying.said.map (Statement.rename names)⟩

def Cell.relabel (cell : Cell) : Cell := ⟨numbers cell.line, cell.operand.rename names⟩

def Reference.relabel (reference : Reference) : Reference :=
  { reference with label := names reference.label, line := numbers reference.line }

def Layout.relabel (layout : Layout) : Layout :=
  ⟨layout.cells.map (Cell.relabel numbers names), layout.labels.map (Definition.rename names)⟩

def Outcome.relabel (outcome : Outcome) : Outcome :=
  ⟨outcome.notices.map (Notice.rename names),
    outcome.result.mapError (Diagnostic.renumber numbers)⟩

theorem fit_rename (address : Nat) (operands : List (Except Cause Operand)) :
    fit address (operands.map (Except.map (Operand.rename names))) =
      (fit address operands).map (List.map (Operand.rename names)) := by
  induction operands generalizing address with
  | nil => rfl
  | cons operand rest ih =>
    cases operand with
    | error cause => rfl
    | ok operand =>
      rw [List.map_cons, Except.map, fit, fit, ih]
      split
      · cases fit (address + 1) rest <;> rfl
      · rfl

theorem operands_rename (statement : Statement) :
    (statement.rename names).operands =
      statement.operands.map (Except.map (Operand.rename names)) := by
  cases statement <;> rfl

variable {names} (distinct : Function.Injective names)

include distinct in
/-- Whether a name is taken does not depend on the names. -/
theorem contribution_rename (emitted : Nat) (defined : List Label) (statement : Statement) :
    (statement.rename names).contribution emitted (defined.map names) =
      (statement.contribution emitted defined).map (Contribution.rename names) := by
  by_cases named : ∃ name, statement = .label name
  · obtain ⟨name, rfl⟩ := named
    simp only [Statement.rename, Statement.contribution, List.mem_map_of_injective distinct,
      List.length_map]
    split
    · rfl
    · split <;> rfl
  · have unnamed : ∀ name, statement ≠ .label name := fun name same => named ⟨name, same⟩
    have still : ∀ name, statement.rename names ≠ .label name := by
      cases statement with
      | label name => exact absurd rfl (unnamed name)
      | blank | byte _ | instruction _ _ => rintro name ⟨⟩
    rw [contribution_eq_fit _ _ still, contribution_eq_fit _ _ unnamed, operands_rename, fit_rename]
    cases fit emitted statement.operands <;> rfl

theorem map_blank_relabel (cells : List Cell) :
    (cells.map (Cell.relabel numbers names)).map Cell.blank = cells.map Cell.blank := by
  rw [List.map_map]
  apply List.map_congr_left
  rintro ⟨line, operand⟩ -
  cases operand <;> rfl

theorem referencesFrom_relabel (address : Nat) (cells : List Cell) :
    referencesFrom address (cells.map (Cell.relabel numbers names)) =
      (referencesFrom address cells).map (Reference.relabel numbers names) := by
  induction cells generalizing address with
  | nil => rfl
  | cons cell rest ih =>
    obtain ⟨line, operand⟩ := cell
    cases operand with
    | byte value => exact ih (address + 1)
    | label name => exact congrArg (_ :: ·) (ih (address + 1))

theorem labels_relabel (layout : Layout) :
    (layout.relabel numbers names).labels.map Definition.label =
      (layout.labels.map Definition.label).map names := by
  simp [Layout.relabel, Function.comp_def, Definition.rename]

theorem append_relabel (layout : Layout) (number : Nat) (contribution : Contribution) :
    (layout.relabel numbers names).append (numbers number) (contribution.rename names) =
      (layout.append number contribution).relabel numbers names := by
  cases contribution with
  | bytes operands => simp [Layout.append, Layout.relabel, Contribution.rename, Cell.relabel]
  | label name => simp [Layout.append, Layout.relabel, Contribution.rename, Definition.rename]

include distinct

theorem address?_rename (definitions : List Definition) (name : Label) :
    Definition.address? (definitions.map (Definition.rename names)) (names name) =
      Definition.address? definitions name := by
  have same (definition : Definition) :
      (definition.rename names).label = names name ↔ definition.label = name :=
    distinct.eq_iff
  simp only [Definition.address?, List.find?_map, Function.comp_def, same, Option.map_map]
  rfl

theorem link_relabel (definitions : List Definition) (references : List Reference)
    (code : Program) :
    link (definitions.map (Definition.rename names))
        (references.map (Reference.relabel numbers names)) code =
      (link definitions references code).relabel numbers names := by
  induction references generalizing code with
  | nil => rfl
  | cons reference rest ih =>
    rw [List.map_cons, link, link]
    have found := address?_rename distinct definitions reference.label
    simp only [Reference.relabel, found]
    cases Definition.address? definitions reference.label with
    | none => rfl
    | some address =>
      dsimp only
      split
      · rw [ih]
        rfl
      · rfl

theorem announce_relabel (layout : Layout) (statement : Statement) :
    (layout.relabel numbers names).draft.announce (statement.rename names) =
      (layout.draft.announce statement).map (Notice.rename names) := by
  cases statement with
  | label name =>
    have taken : (layout.relabel numbers names).draft.defines (names name) =
        layout.draft.defines name := by
      simp only [Draft.defines, Layout.draft, Layout.relabel, address?_rename distinct]
    simp only [Statement.rename, Draft.announce, taken]
    split
    · rfl
    · simp [Layout.draft, Layout.relabel, Notice.rename]
  | blank | byte _ | instruction _ _ => rfl

theorem finish_relabel (layout : Layout) :
    (layout.relabel numbers names).finish = layout.finish.relabel numbers names := by
  rw [Layout.finish, Layout.finish, ← link_relabel numbers distinct]
  simp only [Layout.draft, Layout.relabel, map_blank_relabel, referencesFrom_relabel]

/-- The outcome of an outline with other names and numbers is the same but for these. -/
theorem outcome_relabel (layout : Layout) (sayings : List Saying) :
    (layout.relabel numbers names).outcome (sayings.map (Saying.relabel numbers names)) =
      (layout.outcome sayings).relabel numbers names := by
  induction sayings generalizing layout with
  | nil => exact finish_relabel numbers distinct layout
  | cons saying rest ih =>
    obtain ⟨number, said⟩ := saying
    cases said with
    | error cause => rfl
    | ok statement =>
      rw [List.map_cons, Saying.relabel, Except.map, Layout.outcome, Layout.outcome,
        labels_relabel, announce_relabel numbers distinct]
      have size : (layout.relabel numbers names).cells.length = layout.cells.length := by
        simp [Layout.relabel]
      rw [size, contribution_rename distinct]
      cases statement.contribution layout.cells.length (layout.labels.map Definition.label) with
      | error cause => rfl
      | ok contribution =>
        dsimp only [Except.map]
        rw [append_relabel, ih]
        simp [Outcome.noting, Outcome.relabel]

end

/-! Where all names stay as they are, only the numbers of lines are other ones. -/

@[simp] theorem Operand.rename_id : Operand.rename id = id := by
  funext operand
  cases operand <;> rfl

@[simp] theorem Statement.rename_id : Statement.rename id = id := by
  funext statement
  cases statement with
  | instruction opcode operands => simp [Statement.rename, Except.map_id]
  | blank | byte _ | label _ => rfl

@[simp] theorem Notice.rename_id : Notice.rename id = id := by
  funext notice
  cases notice <;> rfl

def Saying.renumber (numbers : Nat → Nat) (saying : Saying) : Saying :=
  { saying with number := numbers saying.number }

theorem Saying.relabel_id (numbers : Nat → Nat) : relabel numbers id = renumber numbers := by
  funext saying
  simp [relabel, renumber, Except.map_id]

@[simp] theorem speaks_renumber (numbers : Nat → Nat) (saying : Saying) :
    (saying.renumber numbers).speaks = saying.speaks := by
  rcases saying with ⟨number, cause | statement⟩
  · rfl
  · cases statement <;> rfl

/-- The same lines with numbers from another one on. -/
theorem sayings_renumber {numbers : Nat → Nat} (number other : Nat) (lines : List (List UInt8))
    (counted : ∀ i < lines.length, numbers (number + i) = other + i) :
    (sayings number lines).map (Saying.renumber numbers) = sayings other lines := by
  induction lines generalizing number other with
  | nil => rfl
  | cons line rest ih =>
    have first : numbers number = other := counted 0 (Nat.zero_lt_succ _)
    have later (i : Nat) (inside : i < rest.length) : numbers (number + 1 + i) = other + 1 + i := by
      rw [Nat.add_right_comm, Nat.add_assoc, counted (i + 1) (Nat.succ_lt_succ inside)]
      omega
    rw [sayings_cons, sayings_cons, List.map_cons, ih _ _ later, Saying.renumber, first]

/-- Other numbers for the lines have no part in the outcome but in its diagnostic. -/
theorem outcome_renumber (numbers : Nat → Nat) (sayings : List Saying) :
    Layout.empty.outcome (sayings.map (Saying.renumber numbers)) =
      ⟨(Layout.empty.outcome sayings).notices,
        (Layout.empty.outcome sayings).result.mapError (Diagnostic.renumber numbers)⟩ := by
  have relabelled := outcome_relabel numbers Function.injective_id Layout.empty sayings
  rw [Saying.relabel_id] at relabelled
  refine relabelled.trans ?_
  rw [Outcome.relabel, Notice.rename_id, List.map_id]

end LS8.Assembly
