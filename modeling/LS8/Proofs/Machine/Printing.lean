import LS8.Proofs.Machine.Effects
import LS8.Proofs.Machine.Halting

/-! What a run prints, and what it comes to. Printing is done by PRN and by nothing else, so the
values printed in a run are those of its PRN instructions, in the order in which these are
executed. Of the two ways in which a run can stop it comes to one at most, and only once. -/
namespace LS8.Machine

variable {machine : Machine}

/-- The value that the next step prints, which is that of the register PRN names. -/
def prints? (machine : Machine) : Option UInt8 :=
  match machine.step.result with
  | .ok .prn => some (machine.get (.named (machine.memory.read (machine.counter + 1).toUInt8)))
  | _ => none

theorem prints?_eq_none_iff : machine.prints? = none ↔ machine.step.result ≠ .ok .prn := by
  unfold prints?
  split <;> simp_all

/-- A step that faults prints nothing. -/
theorem printedIn_of_error {fault : Fault} (faulted : machine.step.result = .error fault) :
    printedIn machine.step.events = [] := by
  by_cases halted : machine.halted = true
  · simp only [step_halted halted]
    rfl
  simp only [step_faulted (Bool.eq_false_iff.mpr halted) faulted, printedIn_append]
  cases machine.fetch <;> rfl

theorem printedIn_step (machine : Machine) :
    printedIn machine.step.events = machine.prints?.toList := by
  cases made : machine.step.result with
  | error fault =>
    have silent : machine.prints? = none := prints?_eq_none_iff.mpr (by simp [made])
    simp only [printedIn_of_error made, silent, Option.toList_none]
  | ok opcode =>
    obtain ⟨running, instruction, rfl, fetched, accepted⟩ := step_eq_ok made
    obtain ⟨-, -, same⟩ := fetch_eq_ok_iff.mp fetched
    have printed := printedIn_executed running fetched accepted
    cases instruction
    case prn a =>
      have operand : machine.memory.read (machine.counter + 1).toUInt8 = a :=
        (Instruction.prn.inj same).symm
      simp only [printed, prints?, made, Instruction.opcode, operand]
      rfl
    all_goals
      simp only [printed, prints?, made, Instruction.opcode]
      rfl

/-- The values printed in a run are those of its PRN instructions. -/
theorem printedIn_stepped (limit : Nat) (machine : Machine) :
    printedIn ((stepped limit machine).flatMap fun before => before.step.events) =
      (stepped limit machine).filterMap prints? := by
  induction stepped limit machine with
  | nil => rfl
  | cons before rest ih =>
    simp only [List.flatMap_cons, printedIn_append, ih, printedIn_step]
    cases printed : before.prints? with
    | none => exact (List.filterMap_cons_none printed).symm
    | some value => exact (List.filterMap_cons_some printed).symm

theorem length_filterMap_prints? (machines : List Machine) :
    (machines.filterMap prints?).length =
      (machines.map fun before => before.step.result).count (.ok .prn) := by
  simp only [List.length_filterMap_eq_countP, List.count_eq_countP, List.countP_map]
  refine List.countP_congr fun before _ => ?_
  simpa [Option.isSome_iff_ne_none] using not_congr prints?_eq_none_iff

theorem filterMap_prints?_eq_nil_iff {machines : List Machine} :
    machines.filterMap prints? = [] ↔
      .ok .prn ∉ machines.map fun before => before.step.result := by
  rw [← List.length_eq_zero_iff, length_filterMap_prints?, List.count_eq_zero]

/-- One of the attempts of a run, however long it is, comes to this. -/
def ComesTo (machine : Machine) (result : Except Fault Opcode) : Prop :=
  ∃ index, (after index machine).halted = false ∧ (after index machine).step.result = result

theorem comesTo_of_mem {limit : Nat} {before : Machine} (member : before ∈ stepped limit machine) :
    machine.ComesTo before.step.result := by
  obtain ⟨index, -, rfl, running⟩ := mem_stepped_iff.mp member
  exact ⟨index, running, rfl⟩

/-- Whatever a run comes to, it has come to before it is found halted. -/
theorem ComesTo.mem_stepped {result : Except Fault Opcode} (reached : machine.ComesTo result)
    {limit : Nat} (halted : (after limit machine).halted = true) :
    ∃ before ∈ stepped limit machine, before.step.result = result := by
  obtain ⟨index, running, made⟩ := reached
  have bound : index < limit := by
    apply Nat.lt_of_not_le
    intro late
    exact Bool.eq_false_iff.mp running (halted_after_mono late halted)
  exact ⟨_, mem_stepped_iff.mpr ⟨index, bound, rfl, running⟩, made⟩

/-- A run stops only once. -/
theorem ComesTo.eq_of_stops {first second : Except Fault Opcode} (reached : machine.ComesTo first)
    (later : machine.ComesTo second) (stops : Stops first) (stopsToo : Stops second) :
    first = second := by
  obtain ⟨index, running, rfl⟩ := reached
  have halted : (after (index + 1) machine).halted = true := by
    rw [after_succ_last]
    exact (halted_step_iff running).mpr stops
  obtain ⟨before, member, rfl⟩ := later.mem_stepped halted
  have last := getLast?_of_stops member stopsToo
  have own : after index machine ∈ stepped (index + 1) machine :=
    mem_stepped_iff.mpr ⟨index, Nat.lt_succ_self index, rfl, running⟩
  have same := (getLast?_of_stops own stops).symm.trans last
  exact congrArg (fun machine => machine.step.result) (Option.some.inj same)

end LS8.Machine
