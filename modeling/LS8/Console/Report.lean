import LS8.Console.Session

/-! Reports: what a command leaves behind for the one who gave it, namely a status and
what it wrote to the two outputs. Only here does a threshold decide which records
show. -/
namespace LS8.Console

/-- What one command wrote, text by text, each of them ended by a newline. The status is
missing if the program did not come to an end. -/
structure Report where
  status : Option Nat
  misused : Bool
  output : List String
  errors : List String
  deriving DecidableEq, Repr

namespace Report

/-- Tracing is of no use if its records are hidden, so it lowers the threshold. -/
def defaultThreshold (traced : Bool) : Log.Threshold :=
  if traced then some .info else some .warn

/-- The texts of the two outputs while a session goes on. -/
structure Written where
  output : Array String
  errors : Array String

def Written.add (threshold : Log.Threshold) (written : Written) (entry : Entry) : Written :=
  ⟨written.output ++ entry.output?.toArray, written.errors ++ (entry.error? threshold).toArray⟩

def ofSession (threshold : Log.Threshold) (outlet : Outlet) (limit : Nat) (started : Turn) :
    Report :=
  let attended := attend (Written.add threshold) outlet limit started ⟨#[], #[]⟩
  ⟨attended.2.map Ending.status, false, attended.1.output.toList, attended.1.errors.toList⟩

/-- Lines asked for are lost without a word if they cannot be printed. -/
def informing (outlet : Outlet) (lines : List String) : Report :=
  match outlet with
  | .accepting => ⟨some 0, false, lines, []⟩
  | .failing _ => ⟨some 0, false, [], []⟩

/-- A command given by its arguments. The threshold is the one set from outside, if any,
and the limit bounds the turns of a program that need not end. -/
def ofCommand (arguments : List String) (read : String → Except ReadFault (List UInt8))
    (chosen : Option Log.Threshold) (outlet : Outlet) (limit : Nat) : Report :=
  match Request.ofArguments arguments with
  | .help => informing outlet helpLines
  | .version => informing outlet [versionLine]
  | .misuse => ⟨some 1, true, [], []⟩
  | .run traced path =>
    ofSession (chosen.getD (defaultThreshold traced)) outlet limit
      (Session.start traced path (read path))

end Report
end LS8.Console
