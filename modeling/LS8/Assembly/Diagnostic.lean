import LS8.Text.Numeral

/-! Diagnostics: why a source is refused, and on which line. The limits that a source
can exceed stand here beside the messages that quote them. -/
namespace LS8.Assembly

/-- Bytes of a line before its comment. -/
def lineCapacity : Nat := 128

/-- Characters of a label name. -/
def nameCapacity : Nat := 32

def maxLabels : Nat := 64

/-- Uses of labels waiting for an address. -/
def maxReferences : Nat := 128

/-- Bytes of the assembled program. -/
def programCapacity : Nat := 256

inductive Cause
  | invalidBinaryLiteral
  | unknownOperation
  | invalidOperand
  | wrongOperandCount (expected found : Nat)
  | invalidUtf8
  | lineTooLong
  | labelTooLong
  | duplicateLabel
  | undefinedLabel
  | tooManyLabels
  | programTooLarge
  deriving DecidableEq, Repr

def Cause.message : Cause → String
  | invalidBinaryLiteral => "invalid binary literal"
  | unknownOperation => "unknown operation"
  | invalidOperand => "invalid operand"
  | wrongOperandCount expected found =>
    "expected " ++ Numeral.decimal.write expected ++ " operand(s), found " ++
      Numeral.decimal.write found
  | invalidUtf8 => "line is not valid UTF-8"
  | lineTooLong => "line is longer than " ++ Numeral.decimal.write lineCapacity ++ " bytes"
  | labelTooLong => "label is longer than " ++ Numeral.decimal.write nameCapacity ++ " bytes"
  | duplicateLabel => "label is already defined"
  | undefinedLabel => "label is never defined"
  | tooManyLabels => "too many labels"
  | programTooLarge =>
    "program does not fit in " ++ Numeral.decimal.write programCapacity ++ " bytes"

/-- Lines are counted from one. -/
structure Diagnostic where
  line : Nat
  cause : Cause
  deriving DecidableEq, Repr

def Diagnostic.message (diagnostic : Diagnostic) : String :=
  "line " ++ Numeral.decimal.write diagnostic.line ++ ": " ++ diagnostic.cause.message

end LS8.Assembly
