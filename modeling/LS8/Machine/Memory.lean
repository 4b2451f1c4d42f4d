import LS8.Machine.Fault

/-! Memory: 256 cells that hold program and stack alike. A byte is always an address
of memory; only the wider addresses that the program counter takes can lie outside,
so fetching is the one way of reading that can fail. -/
namespace LS8

structure Memory where
  cells : Vector UInt8 256
  deriving DecidableEq

namespace Memory

/-- Cells, and so the largest program that can be loaded. -/
def capacity : Nat := 256

def blank : Memory := ⟨Vector.replicate 256 0⟩

def read (memory : Memory) (address : UInt8) : UInt8 :=
  have inside : address.toNat < 256 := address.toNat_lt
  memory.cells[address.toNat]

def write (memory : Memory) (address value : UInt8) : Memory :=
  ⟨memory.cells.set address.toNat value address.toNat_lt⟩

@[simp] theorem read_blank (address : UInt8) : blank.read address = 0 := by
  simp [read, blank]

@[simp] theorem read_write_same (memory : Memory) (address value : UInt8) :
    (memory.write address value).read address = value := by
  simp [read, write]

@[simp] theorem read_write_other (memory : Memory) (value : UInt8) {address other : UInt8}
    (apart : other ≠ address) : (memory.write address value).read other = memory.read other := by
  have distinct : address.toNat ≠ other.toNat := fun same => apart (UInt8.toNat_inj.mp same.symm)
  simp [read, write, Vector.getElem_set_ne, distinct]

/-- A memory is no more than what its addresses read. -/
theorem ext_read {first second : Memory}
    (same : ∀ address, first.read address = second.read address) : first = second := by
  have cells : first.cells = second.cells := by
    apply Vector.ext
    intro index bound
    have value : (UInt8.ofNat index).toNat = index := by
      simp only [UInt8.toNat_ofNat']; omega
    have read := same (UInt8.ofNat index)
    simp only [Memory.read, value] at read
    exact read
  cases first; cases second; simp_all

/-- Reads at a program counter, which may have left memory. -/
def fetch (memory : Memory) (address : UInt16) : Except AddressFault UInt8 :=
  if inside : address.toNat < 256 then .ok memory.cells[address.toNat]
  else .error (.pastMemory address)

/-- Copies a program over the first cells. One that does not fit is refused whole. -/
def load (memory : Memory) (program : List UInt8) : Except AddressFault Memory :=
  if program.length ≤ capacity then
    .ok ⟨memory.cells.mapFinIdx fun index cell _ => program.getD index cell⟩
  else .error (.programTooLarge program.length)

/-- The cells by ascending address. -/
def toList (memory : Memory) : List UInt8 := memory.cells.toList

/-- Whether memory is a program followed by zeros. -/
def holds (memory : Memory) (program : List UInt8) : Bool :=
  memory.toList == program ++ List.replicate (capacity - program.length) 0

end Memory
end LS8
