import LS8.Assembly.Diagnostic

/-! Labels: names for addresses of the program. A name is ASCII, so its length in
characters is its length in bytes. -/
namespace LS8.Assembly

def startsName (c : Char) : Bool := c.isAlpha || c == '_'

def continuesName (c : Char) : Bool := c.isAlphanum || c == '_'

def isName : List Char → Bool
  | [] => false
  | first :: rest => startsName first && rest.all continuesName

structure Label where
  name : List Char
  valid : isName name = true
  short : name.length ≤ nameCapacity
  deriving DecidableEq

namespace Label

def text (label : Label) : String := String.ofList label.name

/-- A text that is no name is refused for that even if it is also too long. -/
def read (text : List Char) : Except Cause Label :=
  if valid : isName text = true then
    if short : text.length ≤ nameCapacity then .ok ⟨text, valid, short⟩
    else .error .labelTooLong
  else .error .invalidOperand

@[simp] theorem read_name (label : Label) : read label.name = .ok label := by
  simp [read, label.valid, label.short]

theorem read_eq_ok_iff {text : List Char} {label : Label} :
    read text = .ok label ↔ text = label.name := by
  constructor
  · intro accepted
    unfold read at accepted
    split at accepted
    · split at accepted
      · exact congrArg name (Except.ok.inj accepted)
      · contradiction
    · contradiction
  · rintro rfl
    simp

end Label
end LS8.Assembly
