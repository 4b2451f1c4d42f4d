import LS8.Assembly.Assembler

/-! Assembling in two passes: what a source means, said line by line. The source is cut into
lines and every comment is taken off. The first pass lays the lines out, which decides
whether each is accepted and at which address its bytes and labels stand; the second pass
knows all labels and gives every byte. No byte is ever changed, and nothing is kept of a
line but what it adds to the layout. -/
namespace LS8.Assembly

/-- The part of a line of a source that is in front of its comment. Lines are counted from
one. -/
structure SourceLine where
  number : Nat
  kept : List UInt8

/-- The lines from one on that has the given number, each up to its first number sign. The end of a
source ends a line too, even an empty one. -/
def sourceLines (number : Nat) (source : List UInt8) : List SourceLine :=
  ((source.splitOn 0x0a).zipIdx number).map fun (line, number) =>
    ⟨number, line.takeWhile (· != 0x23)⟩

/-- Lines end, and comments begin, where the assembler ends and begins them. -/
theorem sourceLines_eq (number : Nat) (source : List UInt8) : sourceLines number source =
    ((source.splitOn newline).zipIdx number).map fun (line, number) =>
      ⟨number, line.takeWhile (· != commentSign)⟩ := rfl

/-- A source is one line, or a line with its newline in front of another source. -/
@[elab_as_elim]
theorem source_induction {motive : List UInt8 → Prop} (source : List UInt8)
    (last : ∀ line, newline ∉ line → motive line)
    (next : ∀ line rest, newline ∉ line → motive rest → motive (line ++ newline :: rest)) :
    motive source := by
  by_cases ended : newline ∈ source
  · obtain ⟨line, rest, cut, clear⟩ := List.eq_append_cons_of_mem ended
    have shorter : rest.length < source.length := by
      rw [cut, List.length_append, List.length_cons]
      omega
    exact cut ▸ next line rest clear (source_induction rest last next)
  · exact last source ended
termination_by source.length
decreasing_by exact shorter

theorem sourceLines_last (number : Nat) {line : List UInt8} (clear : newline ∉ line) :
    sourceLines number line = [⟨number, line.takeWhile (· != commentSign)⟩] := by
  simp [sourceLines_eq, List.splitOn_eq_singleton clear]

theorem sourceLines_next (number : Nat) {line : List UInt8} (rest : List UInt8)
    (clear : newline ∉ line) :
    sourceLines number (line ++ newline :: rest) =
      ⟨number, line.takeWhile (· != commentSign)⟩ :: sourceLines (number + 1) rest := by
  simp [sourceLines_eq, List.splitOn_append_cons_self_of_not_mem clear]

/-- A byte of a program before all labels are known, with the line it is from. -/
structure Cell where
  line : Nat
  operand : Operand
  deriving DecidableEq

structure Layout where
  cells : List Cell
  labels : List Definition
  deriving DecidableEq

/-- What an accepted line adds to a layout. -/
inductive Contribution
  | bytes (operands : List Operand)
  | label (label : Label)

/-- What stands in a program for a statement, byte by byte, where all can be read. -/
def Statement.operands : Statement → List (Except Cause Operand)
  | blank | label _ => []
  | byte value => [.ok (.byte value)]
  | instruction opcode operands => .ok (.byte opcode) :: operands

/-- The bytes of a line from an address on. Each has to be readable before it is asked whether
there is room for it. -/
def fit (address : Nat) : List (Except Cause Operand) → Except Cause (List Operand)
  | [] => .ok []
  | .error cause :: _ => .error cause
  | .ok operand :: rest =>
    if address < programCapacity then (fit (address + 1) rest).map (operand :: ·)
    else .error .programTooLarge

/-- What a statement adds after a number of bytes and of labels already there. -/
def Statement.contribution (emitted : Nat) (defined : List Label) :
    Statement → Except Cause Contribution
  | .label name =>
    if name ∈ defined then .error .duplicateLabel
    else if defined.length < maxLabels then .ok (.label name)
    else .error .tooManyLabels
  | statement => (fit emitted statement.operands).map .bytes

namespace SourceLine

/-- A line is not looked at if more than 128 bytes of it are kept. -/
def read (line : SourceLine) : Except Cause Statement :=
  if 128 < line.kept.length then .error .lineTooLong else Statement.read line.kept

theorem read_of_le (number : Nat) {kept : List UInt8} (short : kept.length ≤ lineCapacity) :
    read ⟨number, kept⟩ = Statement.read kept := if_neg (Nat.not_lt.mpr short)

theorem read_of_lt (number : Nat) {kept : List UInt8} (long : lineCapacity < kept.length) :
    read ⟨number, kept⟩ = .error .lineTooLong := if_pos long

def contribution (emitted : Nat) (defined : List Label) (line : SourceLine) :
    Except Cause Contribution :=
  match line.read with
  | .error cause => .error cause
  | .ok statement => statement.contribution emitted defined

end SourceLine

namespace Layout

def empty : Layout := ⟨[], []⟩

/-- A label stands at the address of the next byte. -/
def append (layout : Layout) (number : Nat) : Contribution → Layout
  | .bytes operands => { layout with cells := layout.cells ++ operands.map (⟨number, ·⟩) }
  | .label label => { layout with labels := layout.labels ++ [⟨label, layout.cells.length⟩] }

/-- The layout with one more line. Of the lines before it only their number of bytes and their
labels matter. -/
def add (layout : Layout) (line : SourceLine) : Except Diagnostic Layout :=
  match line.contribution layout.cells.length (layout.labels.map Definition.label) with
  | .error cause => .error ⟨line.number, cause⟩
  | .ok contribution => .ok (layout.append line.number contribution)

end Layout

/-- The address of a label in the complete table. -/
def Label.addressIn? (label : Label) (labels : List Definition) : Option Nat :=
  (labels.map fun definition => (definition.label, definition.address)).lookup label

/-- The byte of a cell among the labels of the whole source. The address past the last cell is
no byte. -/
def Cell.resolve (labels : List Definition) (cell : Cell) : Except Diagnostic UInt8 :=
  match cell.operand with
  | .byte value => .ok value
  | .label label =>
    match label.addressIn? labels with
    | none => .error ⟨cell.line, .undefinedLabel⟩
    | some address =>
      if address < 256 then .ok (UInt8.ofNat address)
      else .error ⟨cell.line, .invalidOperand⟩

/-- The address that is put in for a label is the one in the table. -/
theorem Definition.address?_eq (labels : List Definition) (label : Label) :
    address? labels label = label.addressIn? labels := by
  induction labels with
  | nil => rfl
  | cons definition rest ih =>
    rw [Label.addressIn?, List.map_cons, List.lookup_cons]
    by_cases same : definition.label = label
    · simp [address?, same]
    · have apart : (label == definition.label) = false := beq_false_of_ne (Ne.symm same)
      rw [apart]
      refine Eq.trans ?_ ih
      simp [address?, same]

theorem Cell.resolve_label (labels : List Definition) (line : Nat) (label : Label) :
    Cell.resolve labels ⟨line, .label label⟩ =
      match Definition.address? labels label with
      | none => .error ⟨line, .undefinedLabel⟩
      | some address =>
        if address < 256 then .ok (UInt8.ofNat address) else .error ⟨line, .invalidOperand⟩ := by
  rw [Definition.address?_eq]
  rfl

/-- The first pass stops at the first line that is refused. -/
def firstPass (lines : List SourceLine) : Except Diagnostic Layout :=
  lines.foldlM Layout.add .empty

/-- The second pass stops at the first label that has no address, or none that is a byte. -/
def secondPass (layout : Layout) : Except Diagnostic Program :=
  layout.cells.mapM (Cell.resolve layout.labels)

def twoPass (source : List UInt8) : Except Diagnostic Program := do
  secondPass (← firstPass (sourceLines 1 source))

end LS8.Assembly
