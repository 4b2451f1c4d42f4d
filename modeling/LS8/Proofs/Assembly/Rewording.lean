import LS8.Proofs.Assembly.Wording
import LS8.Proofs.Text.Character

/-! Other spellings of an instruction. The case of its mnemonic, the case of the letter of a
register and what is between two operands can be chosen freely: the line says the same. -/
namespace LS8.Assembly

/-- What can be put between two operands on one line. -/
structure IsGap (gap : List Char) : Prop where
  wide : gap ≠ []
  parts : ∀ c ∈ gap, Statement.separates c = true
  inLine : '\n' ∉ gap

/-- A beginning of a line that goes on behind the mnemonic. -/
def IsOpening (front : List Char) : Prop :=
  (Text.trimStart front).dropWhile (fun c => !Text.isBlank c) ≠ []

/-- One change in the spelling of an instruction. -/
inductive Respelled : List Char → List Char → Prop
  /-- The mnemonic in letters of another case. -/
  | mnemonic {indent word other rest : List Char} :
    IsInstruction (indent ++ word ++ rest) → (∀ c ∈ indent, Text.isBlank c = true) →
    (∀ c ∈ word, Text.isBlank c = false) → (∀ c ∈ rest.head?, Text.isBlank c = true) →
    word.map Char.toUpper = other.map Char.toUpper →
    Respelled (indent ++ word ++ rest) (indent ++ other ++ rest)
  /-- The other letter of a register, where the operation takes one. -/
  | register {front back : List Char} {letter other : Char} {opcode : Opcode} :
    IsInstruction (front ++ letter :: back) → IsOpening front →
    (∀ c ∈ front.getLast?, Statement.separates c = true) →
    Opcode.ofMnemonic? (Phrase.inText front).mnemonic = some opcode →
    (shapes opcode)[(Phrase.inText front).words.length]? = some .register →
    letter ∈ ['R', 'r'] → other ∈ ['R', 'r'] →
    Respelled (front ++ letter :: back) (front ++ other :: back)
  /-- Another separator between two operands. -/
  | separator {front gap other back : List Char} {c : Char} :
    IsInstruction (front ++ gap ++ c :: back) → (Phrase.inText front).words ≠ [] →
    Statement.separates c = false → IsGap gap → IsGap other →
    Respelled (front ++ gap ++ c :: back) (front ++ other ++ c :: back)

theorem visible_ne_nil_of_isOpening {front : List Char} (opening : IsOpening front) :
    Text.visible front ≠ [] := by
  intro hidden
  have empty : Text.trimStart front = [] :=
    List.dropWhile_eq_nil_iff.mpr (Text.visible_eq_nil_iff.mp hidden)
  exact opening (by rw [empty]; rfl)

/-- A beginning with an operand goes on behind the mnemonic. -/
theorem isOpening_of_words {front : List Char} (operand : (Phrase.inText front).words ≠ []) :
    IsOpening front := by
  intro ends
  refine operand ?_
  rw [Phrase.inText, ends]
  rfl

/-- What comes behind the mnemonic does not change it. -/
theorem inText_append {front : List Char} (opening : IsOpening front) (back : List Char) :
    Phrase.inText (front ++ back) = ⟨(Phrase.inText front).mnemonic,
      Text.words Statement.separates
        ((Text.trimStart front).dropWhile (fun c => !Text.isBlank c) ++ back)⟩ := by
  have seen := visible_ne_nil_of_isOpening opening
  have whole : ((Text.trimStart front).takeWhile fun c => !Text.isBlank c).length ≠
      (Text.trimStart front).length := by
    intro length
    have shown := (List.takeWhile_prefix fun c => !Text.isBlank c).eq_of_length length
    exact opening (List.dropWhile_eq_nil_iff.mpr (List.takeWhile_eq_self_iff.mp shown))
  rw [Phrase.inText, Phrase.inText, Text.trimStart_append seen, List.takeWhile_append,
    if_neg whole, List.dropWhile_append, if_neg (mt List.isEmpty_iff.mp opening)]

/-- An instruction stays one if the characters at its ends are of the same kind. -/
theorem IsInstruction.of_ends {text other : List Char} (instruction : IsInstruction text)
    (opens : (Text.visible other).head?.any startsName = (Text.visible text).head?.any startsName)
    (closes : (Text.visible other).getLast? = some ':' ↔
      (Text.visible text).getLast? = some ':') : IsInstruction other :=
  ⟨opens.trans instruction.1, mt closes.mp instruction.2⟩

/-- Both letters of a register do for the assembler. -/
theorem readRegister_letter {letter other : Char} (first : letter ∈ ['R', 'r'])
    (second : other ∈ ['R', 'r']) (rest : List Char) :
    readRegister (letter :: rest) = readRegister (other :: rest) := by
  have accepted : (letter = 'R' ∨ letter = 'r') ∧ (other = 'R' ∨ other = 'r') :=
    ⟨by simpa using first, by simpa using second⟩
  match rest with
  | [] | _ :: _ :: _ => rfl
  | [digit] => simp only [readRegister, accepted]

/-- Where a register is taken, its word counts only for the register it is read as. -/
theorem statement_congr {mnemonic : List Char} {opcode : Opcode} {front back : List (List Char)}
    {word other : List Char} (named : Opcode.ofMnemonic? mnemonic = some opcode)
    (place : (shapes opcode)[front.length]? = some .register)
    (same : readRegister word = readRegister other) :
    (⟨mnemonic, front ++ word :: back⟩ : Phrase).statement =
      (⟨mnemonic, front ++ other :: back⟩ : Phrase).statement := by
  obtain ⟨inside, register⟩ := List.getElem?_eq_some_iff.mp place
  have split := List.take_append_drop front.length (shapes opcode)
  rw [List.drop_eq_getElem_cons inside, register] at split
  have taken : ((shapes opcode).take front.length).length = front.length :=
    List.length_take_of_le (Nat.le_of_lt inside)
  have read : List.zipWith Shape.read (shapes opcode) (front ++ word :: back) =
      List.zipWith Shape.read (shapes opcode) (front ++ other :: back) := by
    rw [← split, List.zipWith_append taken, List.zipWith_append taken, List.zipWith_cons_cons,
      List.zipWith_cons_cons, Shape.read, Shape.read, same]
  simp only [Phrase.statement, named, read, List.length_append, List.length_cons]

section
variable {word other : List Char}

/-- A word in another case has the same kind of character in each place. -/
theorem map_congr_toUpper {α : Type} {f : Char → α} (value : α)
    (letters : ∀ c, c.isAlpha = true → f c = value)
    (same : word.map Char.toUpper = other.map Char.toUpper) : word.map f = other.map f := by
  induction word generalizing other with
  | nil => rw [List.map_eq_nil_iff.mp same.symm]
  | cons c word ih =>
    obtain ⟨d, other, rfl, first, later⟩ := List.map_eq_cons_iff.mp same.symm
    rw [List.map_cons, List.map_cons, Text.congr_toUpper value letters first.symm, ih later.symm]

theorem isBlank_recased (whole : ∀ c ∈ word, Text.isBlank c = false)
    (same : word.map Char.toUpper = other.map Char.toUpper) :
    ∀ c ∈ other, Text.isBlank c = false := by
  have kinds := map_congr_toUpper false (fun _ => Text.isBlank_of_isAlpha) same
  have all : ∀ kind ∈ other.map Text.isBlank, kind = false := by
    rw [← kinds]
    simpa using whole
  simpa using all

variable {indent rest : List Char}

theorem isInstruction_recased (instruction : IsInstruction (indent ++ word ++ rest))
    (blank : ∀ c ∈ indent, Text.isBlank c = true) (whole : ∀ c ∈ word, Text.isBlank c = false)
    (same : word.map Char.toUpper = other.map Char.toUpper) :
    IsInstruction (indent ++ other ++ rest) := by
  have opens : word.head?.map startsName = other.head?.map startsName := by
    rw [← List.head?_map, ← List.head?_map]
    refine congrArg List.head? (map_congr_toUpper true ?_ same)
    intro c letter
    rw [startsName, letter, Bool.true_or]
  have closes : word.getLast?.map (· = ':') = other.getLast?.map (· = ':') := by
    rw [← List.getLast?_map, ← List.getLast?_map]
    refine congrArg List.getLast? (map_congr_toUpper False ?_ same)
    intro c letter
    refine eq_false ?_
    rintro rfl
    exact absurd letter (by decide)
  refine instruction.of_ends ?_ ?_
  all_goals
    simp only [Text.visible_append, Text.visible_eq_nil_iff.mpr blank, List.nil_append,
      Text.visible_of_shown whole, Text.visible_of_shown (isBlank_recased whole same),
      List.head?_append, List.getLast?_append]
  · cases first : word.head? <;> cases second : other.head? <;> simp_all
  · cases (Text.visible rest).getLast? with
    | some c => exact Iff.rfl
    | none => cases first : word.getLast? <;> cases second : other.getLast? <;> simp_all

end

/-- Behind a separator another word begins. -/
theorem inText_append_register {front : List Char} (opening : IsOpening front)
    (ended : ∀ c ∈ front.getLast?, Statement.separates c = true) {letter : Char}
    (begins : Statement.separates letter = false) (back : List Char) :
    Phrase.inText (front ++ letter :: back) = ⟨(Phrase.inText front).mnemonic,
      (Phrase.inText front).words ++
        (letter :: back.takeWhile fun c => !Statement.separates c) ::
          Text.words Statement.separates (back.dropWhile fun c => !Statement.separates c)⟩ := by
  have stops : ∀ c ∈ ((Text.trimStart front).dropWhile fun c => !Text.isBlank c).getLast?,
      Statement.separates c = true := by
    obtain ⟨mnemonic, split⟩ :
        (Text.trimStart front).dropWhile (fun c => !Text.isBlank c) <:+ front :=
      (List.dropWhile_suffix _).trans (List.dropWhile_suffix _)
    rw [← List.getLast?_append_of_ne_nil mnemonic opening, split]
    exact ended
  rw [inText_append opening, Text.words_append_of_ended stops, Text.words_letter begins]
  rfl

theorem kind_of_letter {letter : Char} (register : letter ∈ ['R', 'r']) :
    Text.isBlank letter = false ∧ letter ≠ ':' ∧ Statement.separates letter = false := by
  rcases List.mem_pair.mp register with rfl | rfl <;> decide

theorem isInstruction_register {front back : List Char} {letter other : Char}
    (instruction : IsInstruction (front ++ letter :: back)) (seen : Text.visible front ≠ [])
    (first : letter ∈ ['R', 'r']) (second : other ∈ ['R', 'r']) :
    IsInstruction (front ++ other :: back) := by
  obtain ⟨shown, colon, -⟩ := kind_of_letter first
  obtain ⟨shown', colon', -⟩ := kind_of_letter second
  refine instruction.of_ends ?_ ?_
  all_goals simp only [Text.visible_append, Text.visible_cons shown, Text.visible_cons shown']
  · rw [List.head?_append_of_ne_nil _ seen, List.head?_append_of_ne_nil _ seen]
  · cases behind : Text.visible back with
    | nil => simp [colon, colon']
    | cons c rest => simp

section
variable {front back : List Char} {c : Char}

theorem isInstruction_gap {gap other : List Char}
    (instruction : IsInstruction (front ++ gap ++ c :: back)) (seen : Text.visible front ≠ [])
    (shown : Text.isBlank c = false) : IsInstruction (front ++ other ++ c :: back) := by
  refine instruction.of_ends ?_ ?_
  all_goals simp only [Text.visible_append, Text.visible_cons shown, List.append_assoc]
  · rw [List.head?_append_of_ne_nil _ seen, List.head?_append_of_ne_nil _ seen]
  · simp only [List.getLast?_append, List.getLast?_cons]
    rfl

/-- A gap parts the operands in front of it from those behind it. -/
theorem inText_append_gap (opening : IsOpening front) {gap : List Char} (isGap : IsGap gap) :
    Phrase.inText (front ++ gap ++ c :: back) = ⟨(Phrase.inText front).mnemonic,
      (Phrase.inText front).words ++ Text.words Statement.separates (c :: back)⟩ := by
  rw [List.append_assoc, inText_append opening, ← List.append_assoc,
    Text.words_append_gap isGap.parts isGap.wide]
  rfl

end

/-- An instruction that is spelled in another way says the same. -/
theorem ofText_respelled {text other : List Char} (respelled : Respelled text other) :
    Statement.ofText (Text.trim other) = Statement.ofText (Text.trim text) := by
  cases respelled with
  | @mnemonic indent word other rest instruction blank whole stops same =>
    have recased := isInstruction_recased instruction blank whole same
    have named : Opcode.ofMnemonic? other = Opcode.ofMnemonic? word := by
      rw [Opcode.ofMnemonic?, Opcode.ofMnemonic?, same]
    rw [ofText_of_isInstruction recased, ofText_of_isInstruction instruction]
    rcases word with _ | ⟨c, word⟩
    · rw [List.map_eq_nil_iff.mp same.symm]
    · have some : other ≠ [] := by
        rintro rfl
        cases same
      rw [inText_of_parts blank whole (List.cons_ne_nil c word) stops,
        inText_of_parts blank (isBlank_recased whole same) some stops, Phrase.statement,
        Phrase.statement, named]
  | @register front back letter other opcode instruction opening ended named place first second =>
    have respelled := isInstruction_register instruction (visible_ne_nil_of_isOpening opening)
      first second
    rw [ofText_of_isInstruction respelled, ofText_of_isInstruction instruction,
      inText_append_register opening ended (kind_of_letter first).2.2,
      inText_append_register opening ended (kind_of_letter second).2.2]
    exact statement_congr named place (readRegister_letter second first _)
  | @separator front gap other back c instruction operand letter gapped gapping =>
    have opening := isOpening_of_words operand
    have shown : Text.isBlank c = false := (Bool.or_eq_false_iff.mp letter).2
    have respelled : IsInstruction (front ++ other ++ c :: back) :=
      isInstruction_gap instruction (visible_ne_nil_of_isOpening opening) shown
    rw [ofText_of_isInstruction respelled, ofText_of_isInstruction instruction,
      inText_append_gap opening gapping, inText_append_gap opening gapped]

end LS8.Assembly
