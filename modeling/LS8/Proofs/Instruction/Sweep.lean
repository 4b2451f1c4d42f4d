import LS8.Instruction.Basic

/-! Linear sweeps. A program is read from its first byte on, each instruction as long as its
opcode says and the next one right behind it. Sweeping a list of encoded instructions finds
those instructions again, and where each of them starts. -/
namespace LS8

/-- An instruction, and where it starts. -/
structure Placed where
  address : Nat
  instruction : Instruction
  deriving DecidableEq, Repr

/-- The instructions that some bytes are, from an address on. No byte may be left over, and none
may be missing. -/
def sweep (address : Nat) : List UInt8 → Option (List Placed)
  | [] => some []
  | byte :: rest =>
    match Opcode.ofByte? byte with
    | none => none
    | some opcode =>
      if opcode.operandCount ≤ rest.length then
        (sweep (address + opcode.width) (rest.drop opcode.operandCount)).map
          (⟨address, .ofOperands opcode (rest.getD 0 0) (rest.getD 1 0)⟩ :: ·)
      else none
termination_by bytes => bytes.length
decreasing_by
  rw [List.length_drop, List.length_cons]
  omega

/-- Instructions one behind the other. -/
def place (address : Nat) : List Instruction → List Placed
  | [] => []
  | instruction :: rest =>
    ⟨address, instruction⟩ :: place (address + instruction.opcode.width) rest

namespace Instruction

theorem ofOperands_append (instruction : Instruction) (rest : List UInt8) :
    ofOperands instruction.opcode ((instruction.operands ++ rest).getD 0 0)
      ((instruction.operands ++ rest).getD 1 0) = instruction := by
  cases instruction <;> rfl

theorem ofOperands_operandAt (instruction : Instruction) :
    ofOperands instruction.opcode (instruction.operandAt 0) (instruction.operandAt 1) =
      instruction := by
  cases instruction <;> rfl

/-- As many operand bytes as an opcode takes make an instruction. -/
theorem exists_operands {opcode : Opcode} {values : List UInt8}
    (counted : values.length = opcode.operandCount) :
    ∃ instruction : Instruction, instruction.opcode = opcode ∧ instruction.operands = values := by
  refine ⟨ofOperands opcode (values.getD 0 0) (values.getD 1 0), opcode_ofOperands opcode _ _, ?_⟩
  have few := opcode.operandCount_le_two
  rw [operands_ofOperands, ← counted]
  rw [← counted] at few
  match values, few with
  | [], _ | [_], _ | [_, _], _ => rfl

end Instruction

theorem sweep_encode_append (address : Nat) (instruction : Instruction) (rest : List UInt8) :
    sweep address (instruction.encode ++ rest) =
      (sweep (address + instruction.opcode.width) rest).map (⟨address, instruction⟩ :: ·) := by
  have taken := instruction.length_operands
  have inside : instruction.opcode.operandCount ≤ (instruction.operands ++ rest).length := by
    rw [List.length_append, taken]
    exact Nat.le_add_right _ _
  have later : (instruction.operands ++ rest).drop instruction.opcode.operandCount = rest := by
    rw [← taken, List.drop_left]
  rw [Instruction.encode, List.cons_append, sweep, Opcode.ofByte?_byte]
  simp only [inside, if_true, later, Instruction.ofOperands_append]

/-- Sweeping undoes encoding. -/
theorem sweep_flatMap_encode (address : Nat) (instructions : List Instruction) :
    sweep address (instructions.flatMap Instruction.encode) = some (place address instructions) := by
  induction instructions generalizing address with
  | nil => rw [List.flatMap_nil, sweep, place]
  | cons instruction rest ih =>
    rw [List.flatMap_cons, sweep_encode_append, ih]
    rfl

@[simp] theorem map_instruction_place (address : Nat) (instructions : List Instruction) :
    (place address instructions).map Placed.instruction = instructions := by
  induction instructions generalizing address with
  | nil => rfl
  | cons instruction rest ih => rw [place, List.map_cons, ih]

/-- The address behind the first instructions is where the next one starts or, if there is none,
where the program ends. -/
theorem getD_address_place (address : Nat) (front back : List Instruction) :
    ((place address (front ++ back)).map Placed.address).getD front.length
        (address + ((front ++ back).flatMap Instruction.encode).length) =
      address + (front.flatMap Instruction.encode).length := by
  induction front generalizing address with
  | nil => cases back <;> rfl
  | cons instruction front ih =>
    have width := instruction.length_encode
    rw [List.cons_append, place, List.map_cons, List.length_cons, List.getD_cons_succ,
      List.flatMap_cons, List.flatMap_cons, List.length_append, List.length_append, width,
      ← Nat.add_assoc, ih, Nat.add_assoc]

/-- An instruction of a list is placed behind the ones in front of it. -/
theorem getElem_place {address index : Nat} {instructions : List Instruction}
    (inside : index < (place address instructions).length) :
    ∃ front back, instructions = front ++ (place address instructions)[index].instruction :: back ∧
      front.length = index ∧
      (place address instructions)[index].address =
        address + (front.flatMap Instruction.encode).length := by
  induction instructions generalizing address index with
  | nil => exact absurd inside (Nat.not_lt_zero index)
  | cons instruction rest ih =>
    cases index with
    | zero => exact ⟨[], rest, rfl, rfl, rfl⟩
    | succ index =>
      obtain ⟨front, back, split, length, start⟩ := ih (Nat.lt_of_succ_lt_succ inside)
      refine ⟨instruction :: front, back, ?_, congrArg Nat.succ length, ?_⟩
      · exact congrArg (instruction :: ·) split
      · rw [List.flatMap_cons, List.length_append, instruction.length_encode, ← Nat.add_assoc]
        exact start

end LS8
