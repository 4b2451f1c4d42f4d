import LS8.Assembly.Draft

/-! The assembler reads a source byte by byte and keeps no more of it than the current
line. A number sign hides the rest of its line, and a newline ends the line; hidden
bytes are never decoded. The first refusal ends the reading. -/
namespace LS8.Assembly

/-- Between two bytes of a source. -/
structure Assembler where
  line : Nat
  inComment : Bool
  kept : List UInt8
  draft : Draft
  notices : List Notice
  deriving DecidableEq

/-- A refusal does not take back what was noted before it. -/
structure Refusal where
  notices : List Notice
  diagnostic : Diagnostic
  deriving DecidableEq

def newline : UInt8 := 0x0a
def commentSign : UInt8 := 0x23

namespace Assembler

def start : Assembler := ⟨1, false, [], .empty, []⟩

def refuse (assembler : Assembler) (cause : Cause) : Refusal :=
  ⟨assembler.notices, ⟨assembler.line, cause⟩⟩

/-- Places the statement of a line that has ended. The line number stays, because the end
of the source ends a line without starting another. -/
def endLine (assembler : Assembler) : Except Refusal Assembler :=
  match Statement.read assembler.kept with
  | .error cause => .error (assembler.refuse cause)
  | .ok statement =>
    let announced :=
      { assembler with notices := assembler.notices ++ assembler.draft.announce statement }
    match assembler.draft.add assembler.line statement with
    | .error cause => .error (announced.refuse cause)
    | .ok draft => .ok { announced with draft, inComment := false, kept := [] }

/-- Keeps a byte of the current line if there is room for it. -/
def keep (assembler : Assembler) (byte : UInt8) : Except Refusal Assembler :=
  if assembler.kept.length < lineCapacity then
    .ok { assembler with kept := assembler.kept ++ [byte] }
  else .error (assembler.refuse .lineTooLong)

def feed (assembler : Assembler) (byte : UInt8) : Except Refusal Assembler :=
  if byte = newline then do
    let ended ← assembler.endLine
    return { ended with line := ended.line + 1 }
  else if byte = commentSign then .ok { assembler with inComment := true }
  else if assembler.inComment then .ok assembler
  else assembler.keep byte

/-- Reads a source from here to its end, which ends the last line. -/
def feedAll : Assembler → List UInt8 → Except Refusal Assembler
  | assembler, [] => assembler.endLine
  | assembler, byte :: rest =>
    match assembler.feed byte with
    | .error refusal => .error refusal
    | .ok fed => feedAll fed rest

/-- Links the draft of a source that has been read. -/
def finish (assembler : Assembler) : Outcome :=
  let linked := link assembler.draft.definitions assembler.draft.references assembler.draft.code
  ⟨assembler.notices ++ linked.notices, linked.result⟩

end Assembler

def assemble (source : List UInt8) : Outcome :=
  match Assembler.start.feedAll source with
  | .error refusal => ⟨refusal.notices, .error refusal.diagnostic⟩
  | .ok assembler => assembler.finish

end LS8.Assembly
