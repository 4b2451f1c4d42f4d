import LS8.Assembly.Statement

/-! Drafts: a program while its source is being read. A label may be used before it is
defined, so each use leaves a zero byte and a reference to it; `link` puts the
addresses in once the whole source is known. -/
namespace LS8.Assembly

abbrev Program := List UInt8

/-- The address may be one past the last byte a program can have. -/
structure Definition where
  label : Label
  address : Nat
  deriving DecidableEq

/-- Where a label was defined. -/
def Definition.address? (definitions : List Definition) (label : Label) : Option Nat :=
  (definitions.find? fun definition => definition.label = label).map Definition.address

/-- A use of a label: the byte to be patched, and the line to blame. -/
structure Reference where
  label : Label
  address : Nat
  line : Nat
  deriving DecidableEq

structure Draft where
  code : Program
  definitions : List Definition
  references : List Reference
  deriving DecidableEq

/-- What is noted in the course of assembling. -/
inductive Notice
  | label (label : Label) (address : Nat)
  | patched (label : Label) (target : UInt8) (address : Nat)
  deriving DecidableEq

namespace Draft

def empty : Draft := ⟨[], [], []⟩

def defines (draft : Draft) (label : Label) : Bool :=
  (Definition.address? draft.definitions label).isSome

def emit (draft : Draft) (byte : UInt8) : Except Cause Draft :=
  if draft.code.length < programCapacity then .ok { draft with code := draft.code ++ [byte] }
  else .error .programTooLarge

/-- Records the use of a label at the next byte. -/
def refer (draft : Draft) (line : Nat) (label : Label) : Except Cause Draft :=
  if draft.references.length < maxReferences then
    let reference := ⟨label, draft.code.length, line⟩
    .ok { draft with references := draft.references ++ [reference] }
  else .error .tooManyLabels

def place (line : Nat) (draft : Draft) : Operand → Except Cause Draft
  | .byte value => draft.emit value
  | .label label => do
    let referring ← draft.refer line label
    referring.emit 0

/-- Each operand is read and placed before the next one is looked at. -/
def placeAll (line : Nat) (draft : Draft) : List (Except Cause Operand) → Except Cause Draft
  | [] => .ok draft
  | operand :: rest => do
    let operand ← operand
    let placed ← draft.place line operand
    placeAll line placed rest

/-- Names the address of the next byte. -/
def define (draft : Draft) (label : Label) : Except Cause Draft :=
  if draft.defines label then .error .duplicateLabel
  else if draft.definitions.length < maxLabels then
    .ok { draft with definitions := draft.definitions ++ [⟨label, draft.code.length⟩] }
  else .error .tooManyLabels

/-- The draft with the statement of one more line. -/
def add (line : Nat) (draft : Draft) : Statement → Except Cause Draft
  | .blank => .ok draft
  | .byte value => draft.emit value
  | .label label => draft.define label
  | .instruction opcode operands => do
    let started ← draft.emit opcode
    started.placeAll line operands

/-- A label not yet defined is noted before its place in the table is sought, and so
even if there is no place left. -/
def announce (draft : Draft) : Statement → List Notice
  | .label label => if draft.defines label then [] else [.label label draft.code.length]
  | _ => []

@[simp] theorem add_blank (line : Nat) (draft : Draft) : draft.add line .blank = .ok draft := rfl

theorem emit_eq_ok_iff {draft emitted : Draft} {byte : UInt8} :
    draft.emit byte = .ok emitted ↔ draft.code.length < programCapacity ∧
      emitted = { draft with code := draft.code ++ [byte] } := by
  unfold emit
  split
  · simp_all [eq_comm]
  · rename_i full
    simp [full]

end Draft

/-- What became of a source: the program or the refusal, and what was noted on the way. -/
structure Outcome where
  notices : List Notice
  result : Except Diagnostic Program

/-- Puts addresses in at their references, in the order of the references. The address
past the last cell is no byte and cannot be put in. -/
def link (definitions : List Definition) : List Reference → Program → Outcome
  | [], code => ⟨[], .ok code⟩
  | reference :: rest, code =>
    match Definition.address? definitions reference.label with
    | none => ⟨[], .error ⟨reference.line, .undefinedLabel⟩⟩
    | some address =>
      if address < 256 then
        let target := UInt8.ofNat address
        let linked := link definitions rest (code.set reference.address target)
        ⟨.patched reference.label target reference.address :: linked.notices, linked.result⟩
      else ⟨[], .error ⟨reference.line, .invalidOperand⟩⟩

end LS8.Assembly
