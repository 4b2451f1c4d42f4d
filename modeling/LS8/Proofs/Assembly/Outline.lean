import LS8.Proofs.Assembly.Streaming

/-! Outlines of sources. What becomes of a source depends on its lines only through what each of
them says and on which line it is said. Lines that say nothing are not in the outline. -/
namespace LS8.Assembly

/-- What a line says. A line that cannot be read says why not. -/
structure Saying where
  number : Nat
  said : Except Cause Statement

def Saying.speaks : Saying → Bool
  | ⟨_, .ok .blank⟩ => false
  | _ => true

def SourceLine.saying (line : SourceLine) : Saying := ⟨line.number, line.read⟩

/-- The lines that are there to be read, whether or not they are too long for it. -/
def sayings (number : Nat) (lines : List (List UInt8)) : List Saying :=
  (lines.zipIdx number).map fun (line, number) =>
    ⟨number, Statement.read (line.takeWhile (· != commentSign))⟩

theorem sayings_cons (number : Nat) (line : List UInt8) (rest : List (List UInt8)) :
    sayings number (line :: rest) =
      ⟨number, Statement.read (line.takeWhile (· != commentSign))⟩ :: sayings (number + 1) rest :=
  rfl

theorem sayings_append (number : Nat) (front back : List (List UInt8)) :
    sayings number (front ++ back) =
      sayings number front ++ sayings (number + front.length) back := by
  rw [sayings, List.zipIdx_append, List.map_append, sayings, sayings]

def outline (lines : List (List UInt8)) : List Saying := (sayings 1 lines).filter Saying.speaks

/-- An outcome in front of which more was noted. -/
def Outcome.noting (notices : List Notice) (outcome : Outcome) : Outcome :=
  ⟨notices ++ outcome.notices, outcome.result⟩

namespace Layout

def finish (layout : Layout) : Outcome :=
  link layout.draft.definitions layout.draft.references layout.draft.code

/-- What becomes of a source when these sayings follow a layout. -/
def outcome (layout : Layout) : List Saying → Outcome
  | [] => layout.finish
  | ⟨number, .error cause⟩ :: _ => ⟨[], .error ⟨number, cause⟩⟩
  | ⟨number, .ok statement⟩ :: rest =>
    match statement.contribution layout.cells.length (layout.labels.map Definition.label) with
    | .error cause => ⟨layout.draft.announce statement, .error ⟨number, cause⟩⟩
    | .ok contribution =>
      ((layout.append number contribution).outcome rest).noting (layout.draft.announce statement)

theorem outcome_blank (layout : Layout) (number : Nat) (rest : List Saying) :
    layout.outcome (⟨number, .ok .blank⟩ :: rest) = layout.outcome rest := by
  have unchanged : layout.append number (.bytes []) = layout := by simp [append]
  change ((layout.append number (.bytes [])).outcome rest).noting [] = _
  rw [unchanged]
  rfl

/-- Only lines that say something matter. -/
theorem outcome_filter_speaks (layout : Layout) (sayings : List Saying) :
    layout.outcome (sayings.filter Saying.speaks) = layout.outcome sayings := by
  induction sayings generalizing layout with
  | nil => rfl
  | cons saying rest ih =>
    obtain ⟨number, said⟩ := saying
    cases said with
    | error cause => rfl
    | ok statement =>
      cases statement with
      | blank =>
        rw [outcome_blank]
        exact ih layout
      | byte _ | label _ | instruction _ _ =>
        rw [List.filter_cons_of_pos rfl, outcome, outcome]
        simp only [ih]

/-- Laying lines out one after another and then linking them gives their outcome. -/
theorem outcome_saying (layout : Layout) (lines : List SourceLine) :
    layout.outcome (lines.map SourceLine.saying) =
      match lines.foldlM add layout with
      | .error diagnostic => ⟨layout.announced lines, .error diagnostic⟩
      | .ok laid => laid.finish.noting (layout.announced lines) := by
  induction lines generalizing layout with
  | nil => rfl
  | cons line rest ih =>
    rw [List.map_cons, List.foldlM_cons, announced, SourceLine.saying]
    cases stated : line.read with
    | error cause =>
      have refused : layout.add line = .error ⟨line.number, cause⟩ := by
        simp [add, SourceLine.contribution, stated]
      have silent : layout.announce line = [] := by rw [announce, stated]
      rw [refused, silent]
      rfl
    | ok statement =>
      have noted : layout.announce line = layout.draft.announce statement := by
        rw [announce, stated]
      rw [outcome, add, SourceLine.contribution, stated, noted]
      dsimp only
      cases statement.contribution layout.cells.length (layout.labels.map Definition.label) with
      | error cause => rfl
      | ok contribution =>
        simp only [bind, Except.bind, ih]
        cases rest.foldlM add (layout.append line.number contribution) with
        | error diagnostic => rfl
        | ok laid => simp [Outcome.noting]

end Layout

/-- The assembler makes of a source what becomes of the lines of it that it can read. -/
theorem assemble_eq_outcome (source : List UInt8) :
    assemble source = Layout.empty.outcome ((sourceLines 1 source).map SourceLine.saying) := by
  rw [Layout.outcome_saying, assemble, Assembler.feedAll_start]
  cases (sourceLines 1 source).foldlM Layout.add Layout.empty with
  | error diagnostic => rfl
  | ok laid => rfl

theorem assemble_of_laid {source : List UInt8} {laid : Layout}
    (accepted : (sourceLines 1 source).foldlM Layout.add Layout.empty = .ok laid) :
    (assemble source).result = secondPass laid := by
  rw [assemble_eq_outcome, Layout.outcome_saying, accepted]
  exact link_draft laid

/-- A line is read unless there is too much in front of its comment. -/
def Fits (line : List UInt8) : Prop :=
  (line.takeWhile (· != commentSign)).length ≤ lineCapacity

instance (line : List UInt8) : Decidable (Fits line) := Nat.decLe _ _

theorem newline_not_mem_of_mem_splitOn {source line : List UInt8}
    (member : line ∈ source.splitOn newline) : newline ∉ line := by
  induction source using source_induction with
  | last text clear =>
    rw [List.splitOn_eq_singleton clear, List.mem_singleton] at member
    exact member ▸ clear
  | next text rest clear ih =>
    rw [List.splitOn_append_cons_self_of_not_mem clear] at member
    rcases List.mem_cons.mp member with rfl | later
    · exact clear
    · exact ih later

/-- No line of a source is too long to be read. -/
def Short (source : List UInt8) : Prop := ∀ line ∈ source.splitOn newline, Fits line

instance (source : List UInt8) : Decidable (Short source) :=
  List.decidableBAll Fits (source.splitOn newline)

theorem saying_sourceLines {source : List UInt8} (short : Short source) :
    (sourceLines 1 source).map SourceLine.saying = sayings 1 (source.splitOn newline) := by
  rw [sourceLines_eq, sayings, List.map_map]
  apply List.map_congr_left
  rintro ⟨line, number⟩ member
  have inside := short line (List.fst_mem_of_mem_zipIdx member)
  rw [Function.comp_apply, SourceLine.saying, SourceLine.read_of_le number inside]

/-- Two sources with the same outline have the same outcome. -/
theorem assemble_eq_outline {source : List UInt8} (short : Short source) :
    assemble source = Layout.empty.outcome (outline (source.splitOn newline)) := by
  rw [assemble_eq_outcome, saying_sourceLines short, outline, Layout.outcome_filter_speaks]

end LS8.Assembly
