import LS8.Assembly.Assembler
import LS8.Assembly.Diagnostic
import LS8.Assembly.Draft
import LS8.Assembly.Form
import LS8.Assembly.Label
import LS8.Assembly.Operand
import LS8.Assembly.Statement
import LS8.Console.ReadFault
import LS8.Console.Report
import LS8.Console.Request
import LS8.Console.Session
import LS8.Instruction.Basic
import LS8.Instruction.Opcode
import LS8.Log.Record
import LS8.Machine.Arithmetic
import LS8.Machine.Event
import LS8.Machine.Fault
import LS8.Machine.Flags
import LS8.Machine.Memory
import LS8.Machine.Operation
import LS8.Machine.Registers
import LS8.Machine.Run
import LS8.Machine.Snapshot
import LS8.Machine.State
import LS8.Machine.Step
import LS8.Main
import LS8.Monitor.Command
import LS8.Monitor.Sink
import LS8.Proofs.Assembly.Bounds
import LS8.Proofs.Assembly.Executing
import LS8.Proofs.Assembly.Forms
import LS8.Proofs.Assembly.Linking
import LS8.Proofs.Assembly.Phrase
import LS8.Proofs.Assembly.Placement
import LS8.Proofs.Assembly.Resolving
import LS8.Proofs.Assembly.Spelling
import LS8.Proofs.Assembly.Streaming
import LS8.Proofs.Assembly.TwoPass
import LS8.Proofs.Instruction.Sweep
import LS8.Proofs.Machine.Attempting
import LS8.Proofs.Machine.Bounded
import LS8.Proofs.Machine.Effects
import LS8.Proofs.Machine.Execution
import LS8.Proofs.Machine.Faults
import LS8.Proofs.Machine.Loading
import LS8.Proofs.Machine.Refusal
import LS8.Proofs.Machine.Returning
import LS8.Proofs.Machine.Running
import LS8.Proofs.Machine.Stepping
import LS8.Proofs.Machine.Table
import LS8.Proofs.Machine.Writing
import LS8.Proofs.Monitor.Counter
import LS8.Proofs.Monitor.Performing
import LS8.Text.Blank
import LS8.Text.Encoded
import LS8.Text.Numeral
import LS8.Proofs.Machine.Reading
import LS8.Proofs.Machine.Halting
import LS8.Proofs.Monitor.Sequence
import LS8.Proofs.Monitor.Halting
import LS8.Proofs.Monitor.Driving
import LS8.Proofs.Console.Driving
import LS8.Proofs.Machine.Comparing
import LS8.Proofs.Monitor.Comparing
import LS8.Proofs.Text.Encoding
import LS8.Proofs.Text.Words
import LS8.Proofs.Assembly.Outline
import LS8.Proofs.Assembly.Wording
import LS8.Proofs.Assembly.Relabelling
import LS8.Proofs.Assembly.Rewording
import LS8.Proofs.Assembly.Editing
import LS8.Proofs.Assembly.Renaming
import LS8.Proofs.Assembly.Concatenating
import LS8.Proofs.Text.Numeral
import LS8.Proofs.Assembly.Listing
import LS8.Proofs.Assembly.Writing
import LS8.Proofs.Machine.Jumping
import LS8.Proofs.Machine.Printing
import LS8.Proofs.Monitor.Jumping
import LS8.Proofs.Console.Telling
import LS8.Proofs.Console.Reporting
import LS8.Proofs.Console.Outcome
import LS8.Proofs.Console.Observing
import LS8.Proofs.Console.Locating
import LS8.Proofs.Monitor.Printing
import LS8.Proofs.Machine.Recording
import LS8.Proofs.Monitor.Recording
import LS8.Proofs.Console.Tracing
import LS8.Proofs.Assembly.Noting
import LS8.Proofs.Machine.Calling
import LS8.Proofs.Text.Digits
import LS8.Proofs.Assembly.Immediate
import LS8.Proofs.Machine.Nesting
import LS8.Proofs.Text.Trimming
import LS8.Proofs.Assembly.Operands
import LS8.Proofs.Assembly.Meaning
import LS8.Proofs.Assembly.Ending
import LS8.Proofs.Machine.Showing
import LS8.Proofs.Assembly.Growing
import LS8.Proofs.Assembly.Crowding
import LS8.Proofs.Assembly.Patching
