import LS8.Machine.Run

/-! Runs as sequences of machines. A step refused because the machine has halted gives the
machine back, so the machine after a run is the one after as many steps, and what every
step keeps is kept by runs of any length. -/
namespace LS8.Machine

theorem after_succ (limit : Nat) (machine : Machine) :
    after (limit + 1) machine = after limit machine.step.machine := by
  rw [after]
  split
  · rename_i halted
    rw [step_halted halted, after_halted halted]
  · rfl

/-- A run one step longer takes its last step where the shorter one ended. -/
theorem after_succ_last (limit : Nat) (machine : Machine) :
    after (limit + 1) machine = (after limit machine).step.machine := by
  induction limit generalizing machine with
  | zero => exact after_succ 0 machine
  | succ limit ih => rw [after_succ, ih, ← after_succ]

theorem after_preserves {motive : Machine → Prop}
    (kept : ∀ machine, machine.halted = false → motive machine → motive machine.step.machine)
    (limit : Nat) {machine : Machine} (start : motive machine) : motive (after limit machine) := by
  induction limit generalizing machine with
  | zero => exact start
  | succ limit ih =>
    rw [after]
    split
    · exact start
    · rename_i running
      exact ih (kept machine (Bool.eq_false_iff.mpr running) start)

/-- The machines on which the steps of a run are made. -/
def stepped (limit : Nat) (machine : Machine) : List Machine :=
  (attempts limit machine).map Prod.fst

theorem attempts_eq (limit : Nat) (machine : Machine) :
    attempts limit machine = (stepped limit machine).map fun before => (before, before.step) := by
  induction limit generalizing machine with
  | zero => rfl
  | succ limit ih =>
    unfold stepped attempts
    split
    · rfl
    · rw [List.map_cons, List.map_cons]
      exact congrArg _ (ih machine.step.machine)

theorem stepped_succ (limit : Nat) (machine : Machine) :
    stepped (limit + 1) machine =
      if machine.halted then [] else machine :: stepped limit machine.step.machine := by
  rw [stepped, attempts]
  split <;> rfl

@[simp] theorem stepped_halted {machine : Machine} (halted : machine.halted = true) (limit : Nat) :
    stepped limit machine = [] := by
  rw [stepped, attempts_halted halted, List.map_nil]

theorem stepped_running {machine : Machine} (running : machine.halted = false) (limit : Nat) :
    stepped (limit + 1) machine = machine :: stepped limit machine.step.machine := by
  rw [stepped_succ, if_neg (Bool.eq_false_iff.mp running)]

/-- A run can be interrupted and taken up again. -/
theorem after_add (first second : Nat) (machine : Machine) :
    after (first + second) machine = after second (after first machine) := by
  induction first generalizing machine with
  | zero => rw [Nat.zero_add]; rfl
  | succ first ih => rw [Nat.succ_add, after_succ, after_succ, ih]

theorem stepped_add (first second : Nat) (machine : Machine) :
    stepped (first + second) machine =
      stepped first machine ++ stepped second (after first machine) := by
  induction first generalizing machine with
  | zero => rw [Nat.zero_add]; rfl
  | succ first ih =>
    rw [Nat.succ_add]
    cases halted : machine.halted with
    | true => simp only [stepped_halted, after_halted, halted, List.append_nil]
    | false =>
      rw [stepped_running halted, stepped_running halted, after_succ, ih, List.cons_append]

/-- As many steps as a run makes are the run. -/
theorem after_length_stepped (limit : Nat) (machine : Machine) :
    after (stepped limit machine).length machine = after limit machine ∧
      stepped (stepped limit machine).length machine = stepped limit machine := by
  induction limit generalizing machine with
  | zero => exact ⟨rfl, rfl⟩
  | succ limit ih =>
    cases halted : machine.halted with
    | true => simp only [stepped_halted, after_halted, halted, and_self]
    | false =>
      obtain ⟨reached, made⟩ := ih machine.step.machine
      rw [stepped_running halted, List.length_cons, stepped_running halted, after_succ, after_succ,
        reached, made]
      exact ⟨rfl, rfl⟩

theorem getElem?_stepped_eq_some {index limit : Nat} {machine before : Machine} :
    (stepped limit machine)[index]? = some before ↔
      index < limit ∧ after index machine = before ∧ before.halted = false := by
  induction limit generalizing index machine with
  | zero => simp [stepped, attempts]
  | succ limit ih =>
    cases halted : machine.halted with
    | true =>
      rw [stepped_halted halted, after_halted halted]
      constructor
      · intro found
        cases found
      · rintro ⟨-, rfl, running⟩
        rw [halted] at running
        contradiction
    | false =>
      rw [stepped_running halted]
      cases index with
      | zero =>
        constructor
        · rintro ⟨⟩
          exact ⟨Nat.succ_pos limit, rfl, halted⟩
        · rintro ⟨-, reached, -⟩
          exact congrArg some reached
      | succ index => rw [List.getElem?_cons_succ, ih, after_succ, Nat.add_lt_add_iff_right]

/-- A run makes each of its steps on a machine that is running. -/
theorem running_of_lt_length {index limit : Nat} {machine : Machine}
    (made : index < (stepped limit machine).length) : (after index machine).halted = false := by
  obtain ⟨-, reached, running⟩ :=
    getElem?_stepped_eq_some.mp (List.getElem?_eq_getElem made)
  rw [reached]
  exact running

theorem mem_stepped_iff {limit : Nat} {machine before : Machine} :
    before ∈ stepped limit machine ↔
      ∃ index < limit, after index machine = before ∧ before.halted = false := by
  rw [List.mem_iff_getElem?]
  simp only [getElem?_stepped_eq_some]

/-- The steps of a shorter run are among those of a longer one. -/
theorem stepped_mono {shorter longer : Nat} (within : shorter ≤ longer) {machine before : Machine}
    (member : before ∈ stepped shorter machine) : before ∈ stepped longer machine := by
  obtain ⟨index, bound, reached, live⟩ := mem_stepped_iff.mp member
  exact mem_stepped_iff.mpr ⟨index, Nat.lt_of_lt_of_le bound within, reached, live⟩

/-- What is true of a cell, a register or anything else seen of a machine stays so through a run
if it stays so in each of its steps. -/
theorem after_frame (view : Machine → α) {limit : Nat} {machine : Machine}
    (kept : ∀ before ∈ stepped limit machine, view before.step.machine = view before) :
    view (after limit machine) = view machine := by
  induction limit with
  | zero => rfl
  | succ limit ih =>
    have earlier := ih fun before member => kept before (stepped_mono (Nat.le_succ limit) member)
    rw [after_succ_last]
    by_cases halted : (after limit machine).halted = true
    · rw [step_halted halted]
      exact earlier
    · have live := Bool.eq_false_iff.mpr halted
      have member := mem_stepped_iff.mpr ⟨limit, Nat.lt_succ_self limit, rfl, live⟩
      exact (kept _ member).trans earlier

end LS8.Machine
