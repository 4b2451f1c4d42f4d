import LS8.Assembly.Operand
import LS8.Text.Blank
import LS8.Text.Encoded

/-! Statements: what one line of source says, its comment removed. Reading a statement
needs nothing but the line; whether it can be placed is for the draft to decide. -/
namespace LS8.Assembly

/-- An operand that cannot be read stands in the statement as its refusal, because the
bytes in front of it are placed first and may already not fit. -/
inductive Statement
  | blank
  | byte (value : UInt8)
  | label (label : Label)
  | instruction (opcode : UInt8) (operands : List (Except Cause Operand))

namespace Statement

def isBinaryDigit (c : Char) : Bool := c == '0' || c == '1'

/-- One to eight binary digits, which are always a byte. -/
def ofDigits (text : List Char) : Except Cause Statement :=
  if text.length ≤ 8 && text.all isBinaryDigit then
    match Numeral.readByte? 2 text with
    | some value => .ok (.byte value)
    | none => .error .invalidBinaryLiteral
  else .error .invalidBinaryLiteral

/-- Operands are separated by commas and blanks in any mixture. -/
def separates (c : Char) : Bool := c == ',' || Text.isBlank c

/-- A mnemonic ends only at a blank, so a comma right after it belongs to it. -/
def ofInstruction (text : List Char) : Except Cause Statement :=
  let mnemonic := text.takeWhile fun c => !Text.isBlank c
  let words := Text.words separates (text.dropWhile fun c => !Text.isBlank c)
  match Form.named? mnemonic with
  | none => .error .unknownOperation
  | some form =>
    if words.length = form.shapes.length then
      .ok (.instruction form.byte (List.zipWith Shape.read form.shapes words))
    else .error (.wrongOperandCount form.shapes.length words.length)

/-- A line without blanks at its ends. Its first character tells what it can be; one that
can start neither a number nor a name is taken for a bad number. -/
def ofText : List Char → Except Cause Statement
  | [] => .ok .blank
  | first :: rest =>
    let text := first :: rest
    if first.isDigit then ofDigits text
    else if startsName first then
      if text.getLast? = some ':' then (Label.read (Text.trimEnd text.dropLast)).map .label
      else ofInstruction text
    else .error .invalidBinaryLiteral

/-- The statement of a line's bytes. -/
def read (line : List UInt8) : Except Cause Statement :=
  match Text.decode? line with
  | none => .error .invalidUtf8
  | some text => ofText (Text.trim text)

end Statement
end LS8.Assembly
