import LS8.Machine.Step

/-! Programs in memory. A program is in memory if it is a prefix of the cells, which is to say
that every address below its length reads its byte there. Loading puts a program in memory. -/
namespace LS8

namespace Memory

@[simp] theorem length_toList (memory : Memory) : memory.toList.length = 256 :=
  Vector.length_toList

theorem getElem?_toList (memory : Memory) (address : UInt8) :
    memory.toList[address.toNat]? = some (memory.read address) := by
  have inside : address.toNat < 256 := address.toNat_lt
  simp [toList, read]

/-- A memory begins with a program if each address below its length reads its byte. -/
theorem prefix_toList_iff {memory : Memory} {program : List UInt8} :
    program <+: memory.toList ↔ program.length ≤ 256 ∧
      ∀ (address : UInt8) (inside : address.toNat < program.length),
        memory.read address = program[address.toNat] := by
  constructor
  · intro begun
    refine ⟨?_, ?_⟩
    · rw [← memory.length_toList]
      exact begun.length_le
    · intro address inside
      have same := List.prefix_iff_getElem?.mp begun address.toNat inside
      rw [getElem?_toList] at same
      exact Option.some.inj same
  · rintro ⟨fits, same⟩
    apply List.prefix_iff_getElem?.mpr
    intro index inside
    have value : index = (UInt8.ofNat index).toNat := by
      rw [UInt8.toNat_ofNat']
      omega
    have read := memory.getElem?_toList (UInt8.ofNat index)
    rw [same _ (value ▸ inside)] at read
    simpa only [← value] using read

/-- The second memory is the first with a program copied over its first cells. -/
def Overlaid (program : List UInt8) (before after : Memory) : Prop :=
  ∀ address : UInt8, after.read address = program.getD address.toNat (before.read address)

theorem load_of_le (memory : Memory) {program : List UInt8} (fits : program.length ≤ 256) :
    ∃ loaded, memory.load program = .ok loaded ∧ Overlaid program memory loaded := by
  refine ⟨_, if_pos fits, ?_⟩
  intro address
  simp [read]

theorem load_of_lt (memory : Memory) {program : List UInt8} (large : 256 < program.length) :
    memory.load program = .error (.programTooLarge program.length) :=
  if_neg (Nat.not_le.mpr large)

theorem load_eq_ok {memory loaded : Memory} {program : List UInt8}
    (accepted : memory.load program = .ok loaded) :
    program.length ≤ 256 ∧ program <+: loaded.toList := by
  rcases Nat.lt_or_ge 256 program.length with large | fits
  · rw [memory.load_of_lt large] at accepted
    contradiction
  · obtain ⟨overlaid, result, cells⟩ := memory.load_of_le fits
    obtain rfl := Except.ok.inj (result.symm.trans accepted)
    refine ⟨fits, prefix_toList_iff.mpr ⟨fits, ?_⟩⟩
    intro address inside
    rw [cells address]
    simp [inside]

end Memory

namespace Machine

/-- A program that fits is put in the first cells, and nothing else is changed. -/
theorem load_of_le (machine : Machine) {program : List UInt8} (fits : program.length ≤ 256) :
    ∃ memory, machine.load program =
        ⟨{ machine with memory }, .ok (), [.loaded program.length]⟩ ∧
      Memory.Overlaid program machine.memory memory := by
  obtain ⟨memory, loaded, cells⟩ := machine.memory.load_of_le fits
  refine ⟨memory, ?_, cells⟩
  rw [load, loaded]

theorem load_of_lt (machine : Machine) {program : List UInt8} (large : 256 < program.length) :
    machine.load program =
      ⟨machine, .error (.addressing (.programTooLarge program.length)), []⟩ := by
  rw [load, machine.memory.load_of_lt large]

end Machine

/-- A machine that has accepted a program holds it from its first cell on. -/
theorem Machine.load_eq_ok {machine : Machine} {program : List UInt8}
    (accepted : (machine.load program).result = .ok ()) :
    program <+: (machine.load program).machine.memory.toList := by
  unfold load at accepted ⊢
  cases loaded : machine.memory.load program with
  | error cause =>
    rw [loaded] at accepted
    contradiction
  | ok memory => exact (Memory.load_eq_ok loaded).2

end LS8
