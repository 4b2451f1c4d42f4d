import LS8.Proofs.Assembly.Bounds
import LS8.Proofs.Assembly.Linking

/-! Reading a source byte by byte. Between two lines nothing is in the assembler but the draft
of the layout so far and what was noted, and within a line it has kept as much as it has seen
in front of a comment. So a source is read as its lines are laid out. -/
namespace LS8.Assembly

/-- What is noted of a line after a layout. A line that is refused may have been noted. -/
def Layout.announce (layout : Layout) (line : SourceLine) : List Notice :=
  match line.read with
  | .error _ => []
  | .ok statement => layout.draft.announce statement

/-- What is noted of lines after a layout, up to the first that is refused. -/
def Layout.announced (layout : Layout) : List SourceLine → List Notice
  | [] => []
  | line :: rest =>
    match layout.add line with
    | .error _ => layout.announce line
    | .ok added => layout.announce line ++ added.announced rest

namespace Assembler

/-- The rest of a line is nothing to an assembler that has seen a comment begin. -/
theorem feed_hidden (assembler : Assembler) (hidden : assembler.inComment = true) {byte : UInt8}
    (within : byte ≠ newline) : assembler.feed byte = .ok assembler := by
  rw [feed, if_neg within]
  by_cases comment : byte = commentSign
  · rw [if_pos comment, ← hidden]
  · rw [if_neg comment, if_pos hidden]

theorem foldlM_feed_hidden (assembler : Assembler) (hidden : assembler.inComment = true)
    {line : List UInt8} (clear : newline ∉ line) :
    line.foldlM feed assembler = .ok assembler := by
  induction line with
  | nil => rfl
  | cons byte line ih =>
    have within := List.ne_of_not_mem_cons clear
    rw [List.foldlM_cons, feed_hidden assembler hidden (Ne.symm within)]
    exact ih (List.not_mem_of_not_mem_cons clear)

/-- A line that is not too long leaves what is in front of its comment. -/
theorem foldlM_feed_line (assembler : Assembler) (visible : assembler.inComment = false)
    (room : assembler.kept.length ≤ lineCapacity) {line : List UInt8} (clear : newline ∉ line) :
    line.foldlM feed assembler =
      if assembler.kept.length + (line.takeWhile (· != commentSign)).length ≤ lineCapacity then
        .ok { assembler with
          inComment := line.contains commentSign
          kept := assembler.kept ++ line.takeWhile (· != commentSign) }
      else .error (assembler.refuse .lineTooLong) := by
  induction line generalizing assembler with
  | nil =>
    rw [List.takeWhile_nil, List.length_nil, Nat.add_zero, if_pos room, List.append_nil]
    have unchanged : assembler = { assembler with inComment := false } := by rw [← visible]
    exact congrArg Except.ok unchanged
  | cons byte line ih =>
    have within := List.ne_of_not_mem_cons clear
    have clear := List.not_mem_of_not_mem_cons clear
    rw [List.foldlM_cons, feed, if_neg (Ne.symm within)]
    by_cases comment : byte = commentSign
    · have hidden := foldlM_feed_hidden { assembler with inComment := true } rfl clear
      have unseen : (byte :: line).takeWhile (· != commentSign) = [] := by simp [comment]
      have holds : (byte :: line).contains commentSign = true := by simp [comment]
      rw [if_pos comment, unseen, holds, List.length_nil, Nat.add_zero, if_pos room,
        List.append_nil]
      exact hidden
    · have seen : (byte :: line).takeWhile (· != commentSign) =
          byte :: line.takeWhile (· != commentSign) := by
        simp [comment]
      have holds : (byte :: line).contains commentSign = line.contains commentSign := by
        simp [Ne.symm comment]
      rw [if_neg comment, if_neg (by simp [visible]), seen, holds, keep, List.length_cons]
      by_cases space : assembler.kept.length < lineCapacity
      · have later := ih { assembler with kept := assembler.kept ++ [byte] } visible
          (by simpa using Nat.succ_le_of_lt space) clear
        rw [if_pos space]
        refine later.trans ?_
        simp only [List.length_append, List.length_singleton, List.append_assoc,
          List.singleton_append, Nat.add_assoc, Nat.add_comm 1]
        rfl
      · have overfull : ¬ assembler.kept.length +
            ((line.takeWhile (· != commentSign)).length + 1) ≤ lineCapacity := by
          omega
        rw [if_neg space, if_neg overfull]
        rfl

theorem feedAll_append (assembler : Assembler) (front back : List UInt8) :
    assembler.feedAll (front ++ back) =
      (front.foldlM feed assembler).bind fun fed => fed.feedAll back := by
  induction front generalizing assembler with
  | nil => rfl
  | cons byte front ih =>
    rw [List.cons_append, feedAll, List.foldlM_cons]
    cases assembler.feed byte with
    | error refusal => rfl
    | ok fed => exact ih fed

/-- A newline ends the line and begins the next. -/
theorem feedAll_newline (assembler : Assembler) (rest : List UInt8) :
    assembler.feedAll (newline :: rest) =
      assembler.endLine.bind fun ended => { ended with line := ended.line + 1 }.feedAll rest := by
  rw [feedAll, feed, if_pos rfl]
  cases assembler.endLine <;> rfl

theorem feedAll_last (assembler : Assembler) (text : List UInt8) :
    assembler.feedAll text = (text.foldlM feed assembler).bind endLine := by
  have split := feedAll_append assembler text []
  rwa [List.append_nil] at split

theorem feedAll_next (assembler : Assembler) (text rest : List UInt8) :
    assembler.feedAll (text ++ newline :: rest) =
      ((text.foldlM feed assembler).bind endLine).bind
        fun ended => { ended with line := ended.line + 1 }.feedAll rest := by
  rw [feedAll_append]
  cases text.foldlM feed assembler with
  | error refusal => rfl
  | ok fed => exact feedAll_newline fed rest

/-- A line ends as it is added to the layout. -/
theorem endLine_draft {layout : Layout} (sound : layout.Sound) (line : SourceLine)
    (short : line.kept.length ≤ lineCapacity) (inComment : Bool) (notices : List Notice) :
    endLine ⟨line.number, inComment, line.kept, layout.draft, notices⟩ =
      match layout.add line with
      | .error diagnostic => .error ⟨notices ++ layout.announce line, diagnostic⟩
      | .ok added =>
        .ok ⟨line.number, false, [], added.draft, notices ++ layout.announce line⟩ := by
  have read := SourceLine.read_of_le line.number short
  rw [Layout.add, Layout.announce, SourceLine.contribution, read, endLine]
  cases stated : Statement.read line.kept with
  | error cause => simp [refuse]
  | ok statement =>
    have added := add_draft line.number layout statement (sound.room stated)
    simp only [added]
    cases statement.contribution layout.cells.length (layout.labels.map Definition.label) <;> rfl

/-- A line of a source is added to the layout, whatever is in its comment. -/
theorem read_line {layout : Layout} (sound : layout.Sound) (number : Nat)
    (notices : List Notice) {text : List UInt8} (clear : newline ∉ text) :
    ((text.foldlM feed ⟨number, false, [], layout.draft, notices⟩).bind endLine) =
      let line : SourceLine := ⟨number, text.takeWhile (· != commentSign)⟩
      match layout.add line with
      | .error diagnostic => .error ⟨notices ++ layout.announce line, diagnostic⟩
      | .ok added => .ok ⟨number, false, [], added.draft, notices ++ layout.announce line⟩ := by
  have fed := foldlM_feed_line ⟨number, false, [], layout.draft, notices⟩ rfl (Nat.zero_le _) clear
  rw [fed, List.length_nil, Nat.zero_add, List.nil_append]
  by_cases short : (text.takeWhile (· != commentSign)).length ≤ lineCapacity
  · rw [if_pos short]
    exact endLine_draft sound ⟨number, text.takeWhile (· != commentSign)⟩ short
      (text.contains commentSign) notices
  · have long := SourceLine.read_of_lt number (Nat.lt_of_not_le short)
    rw [if_neg short]
    simp [Layout.add, Layout.announce, SourceLine.contribution, long, refuse, Except.bind]

/-- A source is read as its lines are added to the layout one after another. -/
theorem feedAll_draft {layout : Layout} (sound : layout.Sound) (number : Nat)
    (notices : List Notice) (source : List UInt8) :
    feedAll ⟨number, false, [], layout.draft, notices⟩ source =
      let lines := sourceLines number source
      match lines.foldlM Layout.add layout with
      | .error diagnostic => .error ⟨notices ++ layout.announced lines, diagnostic⟩
      | .ok laid =>
        .ok ⟨number + source.count newline, false, [], laid.draft,
          notices ++ layout.announced lines⟩ := by
  induction source using source_induction generalizing layout number notices with
  | last text clear =>
    have ended := read_line sound number notices clear
    rw [feedAll_last, ended, sourceLines_last number clear, List.count_eq_zero.mpr clear,
      Nat.add_zero]
    dsimp only
    rw [List.foldlM_cons, Layout.announced]
    cases layout.add ⟨number, text.takeWhile (· != commentSign)⟩ with
    | error diagnostic => rfl
    | ok added => simp [Layout.announced, bind, Except.bind, pure, Except.pure]
  | next text rest clear ih =>
    have ended := read_line sound number notices clear
    rw [feedAll_next, ended, sourceLines_next number rest clear]
    dsimp only
    rw [List.foldlM_cons, Layout.announced]
    cases accepted : layout.add ⟨number, text.takeWhile (· != commentSign)⟩ with
    | error diagnostic => rfl
    | ok added =>
      have later := ih (sound.add accepted) (number + 1)
        (notices ++ layout.announce ⟨number, text.takeWhile (· != commentSign)⟩)
      have lineCount : (text ++ newline :: rest).count newline = rest.count newline + 1 := by
        rw [List.count_append, List.count_eq_zero.mpr clear, List.count_cons_self, Nat.zero_add]
      refine later.trans ?_
      rw [lineCount]
      simp only [bind, Except.bind, List.append_assoc, Nat.add_assoc, Nat.add_comm 1]

theorem feedAll_start (source : List UInt8) :
    start.feedAll source =
      match (sourceLines 1 source).foldlM Layout.add Layout.empty with
      | .error diagnostic => .error ⟨Layout.empty.announced (sourceLines 1 source), diagnostic⟩
      | .ok laid =>
        .ok ⟨1 + source.count newline, false, [], laid.draft,
          Layout.empty.announced (sourceLines 1 source)⟩ :=
  feedAll_draft Layout.sound_empty 1 [] source

end Assembler

/-- The assembler, which reads a source once and byte by byte, and patches labels where they
were used, is the same as laying out its lines and then resolving every label. -/
theorem assemble_eq_twoPass (source : List UInt8) :
    (assemble source).result = twoPass source := by
  have read := Assembler.feedAll_draft Layout.sound_empty 1 [] source
  have begun : Assembler.start = ⟨1, false, [], Layout.empty.draft, []⟩ := rfl
  rw [assemble, twoPass, firstPass, begun, read]
  dsimp only
  cases (sourceLines 1 source).foldlM Layout.add Layout.empty with
  | error diagnostic => rfl
  | ok laid => exact link_draft laid

end LS8.Assembly
