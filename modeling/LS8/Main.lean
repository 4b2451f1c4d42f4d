import LS8.Console.Report

/-! The command itself. It reads the file, tells each turn whether its value could be
printed, and writes lines out as they come, so that a program that never ends can be
watched; what is written and what the status is are decided by the session. -/
namespace LS8.Console

/-- The number of a system failure, which some calls give negated. -/
def systemNumber (code : UInt32) : Nat := min code.toNat (-code).toNat

/-- The number and the words of a failure; a failure that is not the system's has none. -/
def systemFailure : IO.Error → Option (Nat × String)
  | .alreadyExists _ code details | .otherError code details | .resourceBusy code details
  | .resourceVanished code details | .unsupportedOperation code details
  | .hardwareFault code details | .unsatisfiedConstraints code details
  | .illegalOperation code details | .protocolError code details | .timeExpired code details
  | .interrupted _ code details | .noFileOrDirectory _ code details
  | .invalidArgument _ code details | .permissionDenied _ code details
  | .resourceExhausted _ code details | .inappropriateType _ code details
  | .noSuchThing _ code details => some (systemNumber code, details)
  | .unexpectedEof | .userError _ => none

def reasonOf (failure : IO.Error) : String :=
  match systemFailure failure with
  | some (number, details) => details ++ " (os error " ++ Numeral.decimal.write number ++ ")"
  | none => toString failure

def readFaultOf (failure : IO.Error) : ReadFault :=
  match systemFailure failure with
  | some (2, _) => .missing
  | some (20, _) => .notDirectory
  | some (21, _) => .isDirectory
  | some (36, _) => .nameTooLong
  | _ => .other (reasonOf failure)

def readProgram (path : String) : IO (Except ReadFault (List UInt8)) := do
  try
    let contents ← IO.FS.readBinFile path
    return .ok contents.toList
  catch failure => return .error (readFaultOf failure)

/-- Prints lines at once, and says whether that succeeded. -/
def deliver (lines : List String) : IO Outlet := do
  try
    let stdout ← IO.getStdout
    for line in lines do
      stdout.putStrLn line
      stdout.flush
    return .accepting
  catch failure => return .failing (reasonOf failure)

/-- Writes a turn out and goes on to the next. The values that the coming step prints are
printed first, because the session is told how that went. -/
partial def interact (threshold : Log.Threshold) (turn : Turn) : IO Ending := do
  for text in turn.entries.filterMap (Entry.error? threshold) do
    IO.eprintln text
  match turn.standing with
  | .ended ending => return ending
  | .running session =>
    let values := printedIn session.machine.step.events
    let outlet ← deliver (values.map fun value => Numeral.decimal.write value.toNat)
    interact threshold (session.turn outlet)

end LS8.Console

open LS8.Console in
def main (arguments : List String) : IO UInt32 := do
  match Request.ofArguments arguments with
  | .help =>
    let _ ← deliver helpLines
    return 0
  | .version =>
    let _ ← deliver [versionLine]
    return 0
  | .misuse =>
    IO.eprintln "these arguments are not understood; try --help"
    return 1
  | .run traced path =>
    let chosen := (← IO.getEnv "LS8_LOG").bind LS8.Log.Threshold.named?
    let threshold := chosen.getD (Report.defaultThreshold traced)
    let ending ← interact threshold (Session.start traced path (← readProgram path))
    return UInt32.ofNat ending.status
