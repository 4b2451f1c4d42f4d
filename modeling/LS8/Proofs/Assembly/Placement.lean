import LS8.Proofs.Assembly.TwoPass

/-! Drafts of layouts. A draft is a layout with zeros for its labels and a reference for each
of them, so placing a statement in the draft is adding its contribution to the layout, as
long as there are references enough. -/
namespace LS8.Assembly

def Operand.isLabel : Operand → Bool
  | byte _ => false
  | label _ => true

/-- A zero stands for an address that is still to be put in. -/
def Cell.blank (cell : Cell) : UInt8 :=
  match cell.operand with
  | .byte value => value
  | .label _ => 0

/-- The references of cells that stand from an address on. -/
def referencesFrom (address : Nat) : List Cell → List Reference
  | [] => []
  | ⟨_, .byte _⟩ :: rest => referencesFrom (address + 1) rest
  | ⟨line, .label label⟩ :: rest => ⟨label, address, line⟩ :: referencesFrom (address + 1) rest

theorem referencesFrom_append (address : Nat) (front back : List Cell) :
    referencesFrom address (front ++ back) =
      referencesFrom address front ++ referencesFrom (address + front.length) back := by
  induction front generalizing address with
  | nil => rfl
  | cons cell front ih =>
    obtain ⟨line, operand⟩ := cell
    have next : address + 1 + front.length = address + (front.length + 1) := by omega
    cases operand <;> simp [referencesFrom, ih, next]

theorem length_referencesFrom (address : Nat) (cells : List Cell) :
    (referencesFrom address cells).length = cells.countP fun cell => cell.operand.isLabel := by
  induction cells generalizing address with
  | nil => rfl
  | cons cell cells ih =>
    obtain ⟨line, operand⟩ := cell
    cases operand <;> simp [referencesFrom, ih, Operand.isLabel]

namespace Layout

/-- The layout as it is kept while a source is being read. -/
def draft (layout : Layout) : Draft :=
  ⟨layout.cells.map Cell.blank, layout.labels, referencesFrom 0 layout.cells⟩

def uses (layout : Layout) : Nat := layout.cells.countP fun cell => cell.operand.isLabel

@[simp] theorem length_code_draft (layout : Layout) :
    layout.draft.code.length = layout.cells.length := by
  simp [draft]

@[simp] theorem length_references_draft (layout : Layout) :
    layout.draft.references.length = layout.uses :=
  length_referencesFrom 0 layout.cells

theorem append_cons (layout : Layout) (number : Nat) (operand : Operand)
    (rest : List Operand) :
    layout.append number (.bytes (operand :: rest)) =
      (layout.append number (.bytes [operand])).append number (.bytes rest) := by
  simp [append]

theorem draft_append_byte (layout : Layout) (number : Nat) (value : UInt8) :
    (layout.append number (.bytes [.byte value])).draft =
      { layout.draft with code := layout.draft.code ++ [value] } := by
  simp [append, draft, referencesFrom_append, referencesFrom, Cell.blank]

theorem draft_append_use (layout : Layout) (number : Nat) (label : Label) :
    (layout.append number (.bytes [.label label])).draft =
      { layout.draft with
        code := layout.draft.code ++ [0]
        references := layout.draft.references ++ [⟨label, layout.cells.length, number⟩] } := by
  simp [append, draft, referencesFrom_append, referencesFrom, Cell.blank]

theorem uses_append (layout : Layout) (number : Nat) (operands : List Operand) :
    (layout.append number (.bytes operands)).uses =
      layout.uses + operands.countP Operand.isLabel := by
  simp [append, uses, List.countP_map, Function.comp_def]

end Layout

/-- An operand has a place if there is room for one more byte. A label also needs a reference. -/
theorem place_draft (number : Nat) (layout : Layout) (operand : Operand)
    (room : operand.isLabel = true → layout.uses < maxReferences) :
    layout.draft.place number operand =
      if layout.cells.length < programCapacity then
        .ok (layout.append number (.bytes [operand])).draft
      else .error .programTooLarge := by
  cases operand with
  | byte value =>
    rw [Layout.draft_append_byte, Draft.place, Draft.emit, Layout.length_code_draft]
  | label label =>
    have referred : layout.draft.refer number label = .ok { layout.draft with
        references := layout.draft.references ++ [⟨label, layout.cells.length, number⟩] } := by
      simp [Draft.refer, room rfl]
    rw [Layout.draft_append_use, Draft.place, referred]
    change Draft.emit _ 0 = _
    rw [Draft.emit, Layout.length_code_draft]

def isUse : Except Cause Operand → Bool
  | .ok operand => operand.isLabel
  | .error _ => false

/-- The operands of a line are placed one by one as they fit, as long as there are references
for all of their labels. -/
theorem placeAll_draft (number : Nat) (operands : List (Except Cause Operand)) (layout : Layout)
    (room : layout.uses + operands.countP isUse ≤ maxReferences) :
    layout.draft.placeAll number operands =
      (fit layout.cells.length operands).map fun placed =>
        (layout.append number (.bytes placed)).draft := by
  induction operands generalizing layout with
  | nil => simp [Draft.placeAll, fit, Except.map, Layout.append]
  | cons operand rest ih =>
    cases operand with
    | error cause => rfl
    | ok operand =>
      have counted : (Except.ok operand :: rest).countP isUse =
          rest.countP isUse + [operand].countP Operand.isLabel := by
        rw [List.countP_cons, List.countP_singleton]
        rfl
      have placed := place_draft number layout operand (by
        intro use
        have one : [operand].countP Operand.isLabel = 1 := by simp [use]
        omega)
      have later := ih (layout.append number (.bytes [operand])) (by
        rw [Layout.uses_append]
        omega)
      have size : (layout.append number (.bytes [operand])).cells.length =
          layout.cells.length + 1 := by
        simp [Layout.append]
      simp only [Draft.placeAll, bind, Except.bind, placed, fit]
      by_cases space : layout.cells.length < programCapacity
      · simp only [space, if_true, later, size]
        cases fit (layout.cells.length + 1) rest with
        | error cause => rfl
        | ok placed => simp only [Except.map, ← Layout.append_cons]
      · simp only [space, if_false]
        rfl

theorem defines_draft (layout : Layout) (label : Label) :
    layout.draft.defines label = true ↔ label ∈ layout.labels.map Definition.label := by
  unfold Draft.defines Definition.address? Layout.draft
  simp only [Option.isSome_map, List.find?_isSome, decide_eq_true_eq, List.mem_map]

theorem define_draft (number : Nat) (layout : Layout) (label : Label) :
    layout.draft.define label =
      (Statement.contribution layout.cells.length (layout.labels.map Definition.label)
        (.label label)).map fun contribution => (layout.append number contribution).draft := by
  have defined := defines_draft layout label
  unfold Draft.define Statement.contribution
  by_cases duplicate : label ∈ layout.labels.map Definition.label
  · rw [if_pos (defined.mpr duplicate)]
    simp only [duplicate, if_true]
    rfl
  · rw [if_neg (mt defined.mp duplicate)]
    simp only [duplicate, if_false, List.length_map]
    change (if layout.labels.length < maxLabels then _ else _) = _
    by_cases space : layout.labels.length < maxLabels
    · simp [space, Except.map, Layout.append, Layout.draft]
    · simp [space, Except.map]

/-- Whatever is no label is placed operand by operand, the opcode of an instruction first. -/
theorem add_eq_placeAll (number : Nat) (draft : Draft) {statement : Statement}
    (unnamed : ∀ label, statement ≠ .label label) :
    draft.add number statement = draft.placeAll number statement.operands := by
  cases statement with
  | blank => rfl
  | label label => exact absurd rfl (unnamed label)
  | byte value =>
    simp only [Draft.add, Statement.operands, Draft.placeAll, Draft.place, bind, Except.bind]
    cases draft.emit value <;> rfl
  | instruction opcode operands => rfl

theorem contribution_eq_fit (emitted : Nat) (defined : List Label) {statement : Statement}
    (unnamed : ∀ label, statement ≠ .label label) :
    statement.contribution emitted defined = (fit emitted statement.operands).map .bytes := by
  cases statement with
  | label label => exact absurd rfl (unnamed label)
  | blank | byte _ | instruction _ _ => rfl

/-- A statement is added to a draft as its contribution is to the layout. -/
theorem add_draft (number : Nat) (layout : Layout) (statement : Statement)
    (room : layout.uses + statement.operands.countP isUse ≤ maxReferences) :
    layout.draft.add number statement =
      (statement.contribution layout.cells.length (layout.labels.map Definition.label)).map
        fun contribution => (layout.append number contribution).draft := by
  by_cases named : ∃ label, statement = .label label
  · obtain ⟨label, rfl⟩ := named
    exact define_draft number layout label
  · have unnamed : ∀ label, statement ≠ .label label := fun label same => named ⟨label, same⟩
    rw [add_eq_placeAll number _ unnamed, contribution_eq_fit _ _ unnamed,
      placeAll_draft number _ layout room]
    cases fit layout.cells.length statement.operands <;> rfl

end LS8.Assembly
