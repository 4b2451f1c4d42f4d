import LS8.Machine.Event

/-! Sinks: where printed values go. A sink takes each value as it is printed and cannot
answer, so nothing the machine does can hang on it. -/
namespace LS8

structure Sink (σ : Type) where
  accept : σ → UInt8 → σ

/-- A place in the state of an owner where a sink keeps its own. -/
structure Reference (ρ σ : Type) where
  read : ρ → σ
  write : ρ → σ → ρ
  read_write : ∀ owner state, read (write owner state) = state
  write_read : ∀ owner, write owner (read owner) = owner
  write_write : ∀ owner first second, write (write owner first) second = write owner second

namespace Sink

/-- Keeps every value, in the order printed. -/
def collect : Sink (Array UInt8) := ⟨Array.push⟩

def discard : Sink Unit := ⟨fun _ _ => ()⟩

def acceptAll (sink : Sink σ) (state : σ) (values : List UInt8) : σ :=
  values.foldl sink.accept state

@[simp] theorem acceptAll_append (sink : Sink σ) (state : σ) (front back : List UInt8) :
    sink.acceptAll state (front ++ back) = sink.acceptAll (sink.acceptAll state front) back := by
  simp [acceptAll]

@[simp] theorem collect_acceptAll (state : Array UInt8) (values : List UInt8) :
    collect.acceptAll state values = state ++ values := by
  induction values generalizing state with
  | nil => simp [acceptAll]
  | cons value rest ih =>
    have fed : collect.acceptAll state (value :: rest) =
        collect.acceptAll (state.push value) rest := rfl
    rw [fed, ih]
    simp

end Sink
end LS8
