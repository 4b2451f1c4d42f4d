/-! Read faults: why the file of a program could not be read, with the wording of the system. -/
namespace LS8.Console

/-- Why a program could not be read. -/
inductive ReadFault
  | missing
  | notDirectory
  | isDirectory
  | nameTooLong
  | other (reason : String)
  deriving DecidableEq, Repr

def ReadFault.message : ReadFault → String
  | missing => "No such file or directory (os error 2)"
  | notDirectory => "Not a directory (os error 20)"
  | isDirectory => "Is a directory (os error 21)"
  | nameTooLong => "File name too long (os error 36)"
  | other reason => reason

end LS8.Console
