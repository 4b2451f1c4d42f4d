import LS8.Proofs.Assembly.Meaning

/-! The end of a line. However far a source has been read, the draft is that of some layout, so a
line that ends there adds to the draft what it means or is refused for what it means, and leaves
the assembler at the beginning of a line. -/
namespace LS8.Assembly

/-- The draft with the bytes of one more line, or with its label at the next byte. -/
def Draft.contribute (number : Nat) (draft : Draft) : Contribution → Draft
  | .bytes operands =>
    let cells := operands.map (Cell.mk number)
    { draft with
      code := draft.code ++ cells.map Cell.blank
      references := draft.references ++ referencesFrom draft.code.length cells }
  | .label label =>
    { draft with definitions := draft.definitions ++ [⟨label, draft.code.length⟩] }

theorem Layout.draft_append (layout : Layout) (number : Nat) (contribution : Contribution) :
    (layout.append number contribution).draft = layout.draft.contribute number contribution := by
  cases contribution <;> simp [append, draft, Draft.contribute, referencesFrom_append]

namespace Assembler

/-- The assembler behind a line, or its refusal, which is of that line. -/
def ended (assembler : Assembler) (notices : List Notice) :
    Except Cause Contribution → Except Refusal Assembler
  | .error cause => .error ⟨notices, ⟨assembler.line, cause⟩⟩
  | .ok contribution =>
    .ok ⟨assembler.line, false, [], assembler.draft.contribute assembler.line contribution, notices⟩

/-- Between two bytes of a source, no more has been kept of a line than there may be. -/
structure Follows (assembler : Assembler) (layout : Layout) : Prop where
  sound : layout.Sound
  drafted : assembler.draft = layout.draft
  short : assembler.kept.length ≤ lineCapacity

theorem follows_start : start.Follows .empty := ⟨Layout.sound_empty, rfl, Nat.zero_le _⟩

variable {assembler : Assembler} {layout : Layout}

theorem Follows.endLine (follows : assembler.Follows layout) :
    let line : SourceLine := ⟨assembler.line, assembler.kept⟩
    let notices := assembler.notices ++ layout.announce line
    assembler.endLine = match layout.add line with
      | .error diagnostic => .error ⟨notices, diagnostic⟩
      | .ok added => .ok ⟨assembler.line, false, [], added.draft, notices⟩ := by
  obtain ⟨line, inComment, kept, draft, notices⟩ := assembler
  obtain rfl := follows.drafted
  exact endLine_draft follows.sound ⟨line, kept⟩ follows.short inComment notices

theorem Follows.exists_endLine (follows : assembler.Follows layout) :
    ∃ notices, assembler.endLine = assembler.ended notices
      ((Statement.read assembler.kept).bind (Statement.contribution assembler.draft.code.length
        (assembler.draft.definitions.map Definition.label))) := by
  have read := SourceLine.read_of_le assembler.line follows.short
  refine ⟨assembler.notices ++ layout.announce ⟨assembler.line, assembler.kept⟩,
    follows.endLine.trans ?_⟩
  rw [Layout.add, SourceLine.contribution, read, follows.drafted, Layout.length_code_draft]
  cases Statement.read assembler.kept with
  | error cause => rfl
  | ok statement =>
    dsimp only [Except.bind, Layout.draft]
    cases statement.contribution layout.cells.length (layout.labels.map Definition.label) with
    | error cause => rfl
    | ok contribution =>
      rw [ended, follows.drafted, ← Layout.draft_append]
      rfl

theorem Follows.feed (follows : assembler.Follows layout) {byte : UInt8} {fed : Assembler}
    (accepted : assembler.feed byte = .ok fed) : ∃ added, fed.Follows added := by
  rw [Assembler.feed] at accepted
  split at accepted
  · rw [follows.endLine] at accepted
    cases added : layout.add ⟨assembler.line, assembler.kept⟩ with
    | error diagnostic =>
      rw [added] at accepted
      cases accepted
    | ok next =>
      rw [added] at accepted
      cases accepted
      exact ⟨next, follows.sound.add added, rfl, Nat.zero_le _⟩
  split at accepted
  · cases accepted
    exact ⟨layout, follows.sound, follows.drafted, follows.short⟩
  split at accepted
  · cases accepted
    exact ⟨layout, follows⟩
  · rw [keep] at accepted
    split at accepted
    · cases accepted
      refine ⟨layout, follows.sound, follows.drafted, ?_⟩
      rw [List.length_append]
      exact Nat.succ_le_of_lt ‹_›
    · cases accepted

theorem exists_follows {source : List UInt8} (follows : assembler.Follows layout)
    {reached : Assembler} (read : source.foldlM Assembler.feed assembler = .ok reached) :
    ∃ layout, reached.Follows layout := by
  induction source generalizing assembler layout with
  | nil =>
    cases read
    exact ⟨layout, follows⟩
  | cons byte source ih =>
    rw [List.foldlM_cons] at read
    cases accepted : assembler.feed byte with
    | error refusal =>
      rw [accepted] at read
      cases read
    | ok fed =>
      rw [accepted] at read
      obtain ⟨added, next⟩ := follows.feed accepted
      exact ih next read

end Assembler

/-- At the end of a line an assembler accepts the line or refuses it for one reason, as the line is
accepted or refused by its meaning among the bytes and the labels there are. There are never more
bytes than a program may have. -/
theorem endLine_means {source : List UInt8} {assembler : Assembler}
    (reached : source.foldlM Assembler.feed .start = .ok assembler) {line : List UInt8}
    (short : line.length ≤ lineCapacity) :
    let emitted := assembler.draft.code.length
    let defined := assembler.draft.definitions.map Definition.label
    emitted ≤ programCapacity ∧
    ∃ verdict, (∀ other, Means emitted defined line other ↔ other = verdict) ∧
      ∃ notices, { assembler with kept := line }.endLine = assembler.ended notices verdict := by
  obtain ⟨layout, follows⟩ := Assembler.exists_follows Assembler.follows_start reached
  have filled : { assembler with kept := line }.Follows layout :=
    ⟨follows.sound, follows.drafted, short⟩
  refine ⟨?_, _, fun other => means_iff, filled.exists_endLine⟩
  rw [follows.drafted, Layout.length_code_draft]
  exact follows.sound.bounded

/-- An assembler behind a line that halts. -/
def behindHalt : Assembler := ⟨2, false, [], ⟨[1], [], []⟩, []⟩

def shortLabel : Label := ⟨['y'], by decide, by decide⟩

def loading : List UInt8 := Text.encode "ldi r3,\t0x1f".toList

theorem endLine_means_label :
    (Text.encode ['H', 'L', 'T', '\n']).foldlM Assembler.feed .start = .ok behindHalt ∧
    (Means 1 [] (Text.encode [' ', 'y', ':']) (.ok (.label shortLabel)) ∧
      ∃ notices, { behindHalt with kept := Text.encode [' ', 'y', ':'] }.endLine =
        .ok ⟨2, false, [], ⟨[1], [⟨shortLabel, 1⟩], []⟩, notices⟩) ∧
    Means 1 [] loading (.ok (.bytes [.byte 0x82, .byte 3, .byte 0x1f])) ∧
      ∃ notices, { behindHalt with kept := loading }.endLine =
        .ok ⟨2, false, [], ⟨[1, 0x82, 3, 0x1f], [], []⟩, notices⟩ := by
  have reached : (Text.encode ['H', 'L', 'T', '\n']).foldlM Assembler.feed .start =
      .ok behindHalt := by rfl
  have labels : Means 1 [] (Text.encode [' ', 'y', ':']) (.ok (.label shortLabel)) := by
    have named : IsNamed ['y'] (.ok shortLabel) :=
      @IsNamed.name shortLabel (by decide) (by decide)
    have defines : Defines [] ['y'] (.ok (.label shortLabel)) :=
      .fresh named List.not_mem_nil (by decide)
    have trimmedEnd : Text.IsTrimmedEnd ['y'] ['y'] := Text.isTrimmedEnd_iff.mpr (by decide +kernel)
    have trimmed : Text.IsTrimmed [' ', 'y', ':'] ['y', ':'] :=
      Text.isTrimmed_iff.mpr (by decide +kernel)
    have opens : (['y'] ++ [':']).head? = some 'y' := rfl
    exact .text trimmed (.label opens (by decide) trimmedEnd defines)
  have loads : Means 1 [] loading (.ok (.bytes [.byte 0x82, .byte 3, .byte 0x1f])) := by
    have register : Reads .register ['r', '3'] (.ok (.byte 3)) :=
      .register ⟨by decide, 'r', by decide, rfl⟩
    have amount : Numeral.AmountTo 16 ['1', 'f'] (0x1f : UInt8).toNat :=
      ⟨by decide, [1, 15], .cons ⟨by decide, by decide⟩ (.cons ⟨by decide, by decide⟩ .nil),
        by decide⟩
    have number : Reads .immediate ['0', 'x', '1', 'f'] (.ok (.byte 0x1f)) :=
      .number (by decide) (.inl ⟨['0', 'x'], 16, ['1', 'f'], by decide, rfl, amount⟩)
    have placed : PlacedAs 2 [(.register, ['r', '3']), (.immediate, ['0', 'x', '1', 'f'])]
        (((Except.ok []).map (.byte 0x1f :: ·)).map (.byte 3 :: ·)) :=
      .next register (by decide) (.next number (by decide) .none)
    have words : ([' ', 'r', '3', ',', '\t', '0', 'x', '1', 'f'].splitOnP fun c =>
        c == ',' || Text.isBlank c).filter (!·.isEmpty) =
          [['r', '3'], ['0', 'x', '1', 'f']] := by
      decide +kernel
    have trimmed : Text.IsTrimmed "ldi r3,\t0x1f".toList "ldi r3,\t0x1f".toList :=
      Text.isTrimmed_iff.mpr (by decide +kernel)
    have opens : (['l', 'd', 'i'] ++ [' ', 'r', '3', ',', '\t', '0', 'x', '1', 'f']).head? =
        some 'l' := rfl
    have whole : ∀ c ∈ ['l', 'd', 'i'], Text.isBlank c = false :=
      List.all_iff_forall_prop.mp (by decide)
    have stops : ∀ c ∈ some ' ', Text.isBlank c = true := fun c blank =>
      Option.some.inj blank ▸ by decide
    refine .text trimmed (.instruction opens (by decide) (by decide) whole stops ?_)
    rw [words]
    exact @Instructs.placed 1 ['l', 'd', 'i'] [['r', '3'], ['0', 'x', '1', 'f']] .ldi _
      (by decide) (by decide) (by decide) placed
  have short : (Text.encode [' ', 'y', ':']).length ≤ lineCapacity := by decide
  obtain ⟨-, verdict, unique, notices, ended⟩ := endLine_means reached short
  obtain rfl := (unique _).mp labels
  have narrow : loading.length ≤ lineCapacity := by decide +kernel
  obtain ⟨-, verdict, unique, later, placed⟩ := endLine_means reached narrow
  obtain rfl := (unique _).mp loads
  exact ⟨reached, ⟨labels, notices, ended⟩, loads, later, placed⟩

end LS8.Assembly
