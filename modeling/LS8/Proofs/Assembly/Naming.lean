import LS8.Proofs.Assembly.Relabelling
import LS8.Proofs.Assembly.Wording
import LS8.Proofs.Text.Character
import LS8.Proofs.Text.Respelling

/-! Names in a line. The name of a label stands in front of the colon that ends a line, or is the
second operand of LDI. No name has a character in it that means something else, so where a name is
written in place of another one, it is read in its place. -/
namespace LS8.Assembly

/-- The new name of a label. A word that names no label stays. -/
def replaceName (names : Label → Label) (word : List Char) : List Char :=
  match Label.read word with
  | .ok label => (names label).name
  | .error _ => word

/-- A line that ends in a colon defines the label in front of it; another line that begins with
the mnemonic of LDI may name one as its second operand. -/
def renameText (names : Label → Label) (text : List Char) : List Char :=
  let indent := text.takeWhile Text.isBlank
  if (Text.trim text).getLast? = some ':' then
    let name := Text.trimEnd (Text.trim text).dropLast
    indent ++ replaceName names name ++ text.drop (indent.length + name.length)
  else
    let mnemonic := (Text.trimStart text).takeWhile fun c => !Text.isBlank c
    let operands := (Text.trimStart text).dropWhile fun c => !Text.isBlank c
    if Opcode.ofMnemonic? mnemonic = some .ldi then
      indent ++ mnemonic ++ Text.mapWord Statement.separates (replaceName names) 1 operands
    else text

theorem toNat_of_continuesName {c : Char} (continues : continuesName c = true) :
    0x30 ≤ c.toNat ∧ c.toNat ≤ 0x7a ∧ c.toNat ≠ 0x3a := by
  rcases Bool.or_eq_true_iff.mp continues with either | underscore
  · rcases Bool.or_eq_true_iff.mp either with letter | digit
    · have codes := Text.isAlpha_iff.mp letter
      omega
    · have codes := Text.isDigit_iff.mp digit
      omega
  · obtain rfl := eq_of_beq underscore
    decide

/-- No character of a name has a meaning of its own. -/
structure IsPlain (c : Char) : Prop where
  shown : Text.isBlank c = false
  whole : Statement.separates c = false
  colon : c ≠ ':'
  comment : c ≠ '#'
  newline : c ≠ '\n'

theorem isPlain_of_continuesName {c : Char} (continues : continuesName c = true) : IsPlain c := by
  obtain ⟨low, high, colon⟩ := toNat_of_continuesName continues
  have shown := Text.isBlank_eq_false (c := c) (by omega) (by omega)
  have apart (d : Char) (other : d.toNat < 0x30 ∨ d.toNat = 0x3a) : c ≠ d := by
    rintro rfl
    omega
  have comma := apart ',' (by decide)
  exact ⟨shown, by simp [Statement.separates, comma, shown], apart ':' (by decide),
    apart '#' (by decide), apart '\n' (by decide)⟩

/-- What can start a name can also go on in it. -/
theorem continuesName_of_isName {text : List Char} (name : isName text = true) :
    ∀ c ∈ text, continuesName c = true := by
  cases text with
  | nil => contradiction
  | cons first rest =>
    obtain ⟨starts, continues⟩ := Bool.and_eq_true_iff.mp name
    refine List.forall_mem_cons.mpr ⟨?_, List.all_eq_true.mp continues⟩
    rcases Bool.or_eq_true_iff.mp starts with letter | underscore
    · simp [continuesName, Char.isAlphanum, letter]
    · simp [continuesName, underscore]

namespace Label

theorem exists_cons (label : Label) : ∃ first rest, label.name = first :: rest ∧
    startsName first = true ∧ ∀ c ∈ rest, continuesName c = true := by
  obtain ⟨name, valid, short⟩ := label
  cases name with
  | nil => contradiction
  | cons first rest =>
    obtain ⟨starts, continues⟩ := Bool.and_eq_true_iff.mp valid
    exact ⟨first, rest, rfl, starts, List.all_eq_true.mp continues⟩

theorem plain (label : Label) : ∀ c ∈ label.name, IsPlain c := fun c member =>
  isPlain_of_continuesName (continuesName_of_isName label.valid c member)

theorem name_ne_nil (label : Label) : label.name ≠ [] := by
  obtain ⟨first, rest, name, -, -⟩ := label.exists_cons
  simp [name]

end Label

theorem replaceName_name (names : Label → Label) (label : Label) :
    replaceName names label.name = (names label).name := by
  rw [replaceName, Label.read_name]

theorem replaceName_cases (names : Label → Label) (word : List Char) :
    (∃ label : Label, word = label.name ∧ replaceName names word = (names label).name) ∨
      replaceName names word = word ∧ ∀ label, Label.read word ≠ .ok label := by
  cases read : Label.read word with
  | ok label =>
    obtain rfl := Label.read_eq_ok_iff.mp read
    exact .inl ⟨label, rfl, replaceName_name names label⟩
  | error cause =>
    refine .inr ⟨by rw [replaceName, read], ?_⟩
    rintro label ⟨⟩

/-- A new name is read where the old one was. -/
theorem readImmediate_replaceName (names : Label → Label) (word : List Char) :
    readImmediate (replaceName names word) =
      (readImmediate word).map (Operand.rename names) := by
  have named (label : Label) : readImmediate label.name = .ok (.label label) := by
    obtain ⟨first, rest, name, starts, -⟩ := label.exists_cons
    have letter : label.name.head?.any Char.isDigit = false := by
      rw [name]
      exact isDigit_of_startsName starts
    rw [readImmediate, letter, Label.read_name]
    rfl
  rcases replaceName_cases names word with ⟨label, rfl, renamed⟩ | ⟨same, unread⟩
  · rw [renamed, named, named]
    rfl
  · rw [same, readImmediate]
    split
    · cases readNumber? word <;> rfl
    · cases read : Label.read word with
      | ok label => exact absurd read (unread label)
      | error cause => rfl

/-- What is at a colon that ends a line. -/
theorem exists_definition {text : List Char} (defines : (Text.trim text).getLast? = some ':') :
    ∃ gap back, (∀ c ∈ gap, Text.isBlank c = true) ∧ (∀ c ∈ back, Text.isBlank c = true) ∧
      text = text.takeWhile Text.isBlank ++ Text.trimEnd (Text.trim text).dropLast ++
        (gap ++ ':' :: back) := by
  obtain ⟨back, blank, split⟩ := Text.exists_trimEnd (Text.trimStart text)
  obtain ⟨gap, blankGap, name⟩ := Text.exists_trimEnd (Text.trim text).dropLast
  refine ⟨gap, back, blankGap, blank, ?_⟩
  have last : (Text.trim text).dropLast ++ [':'] = Text.trim text :=
    List.dropLast_append_getLast? ':' defines
  calc text = text.takeWhile Text.isBlank ++ Text.trimStart text :=
        List.takeWhile_append_dropWhile.symm
    _ = text.takeWhile Text.isBlank ++ ((Text.trim text).dropLast ++ [':'] ++ back) := by
        rw [last]
        exact congrArg _ split
    _ = _ := by
        rw [name]
        simp only [List.append_assoc, List.singleton_append]
        rw [← name]

/-- A name with a colon behind it defines a label. -/
theorem ofText_definition (label : Label) {indent gap back : List Char}
    (before : ∀ c ∈ indent, Text.isBlank c = true) (between : ∀ c ∈ gap, Text.isBlank c = true)
    (after : ∀ c ∈ back, Text.isBlank c = true) :
    Statement.ofText (Text.trim (indent ++ label.name ++ (gap ++ ':' :: back))) =
      .ok (.label label) := by
  obtain ⟨first, rest, name, starts, -⟩ := label.exists_cons
  have shown := (label.plain first (by simp [name])).shown
  have trimmed : Text.trim (indent ++ label.name ++ (gap ++ ':' :: back)) =
      first :: (rest ++ gap ++ [':']) := by
    have margins := Text.trim_margins before after (label.name ++ gap ++ [':'])
    have start : Text.trimStart (label.name ++ gap ++ [':']) = label.name ++ gap ++ [':'] :=
      Text.trimStart_of_shown (by simp [name, shown])
    have ending : Text.trimEnd (label.name ++ gap ++ [':']) = label.name ++ gap ++ [':'] :=
      Text.trimEnd_of_shown (by simp; decide)
    rw [Text.trim.eq_1 (label.name ++ gap ++ [':']), start, ending] at margins
    simpa [name] using margins
  have named : Text.trimEnd (label.name ++ gap) = label.name := by
    rw [Text.trimEnd_append_blanks between]
    exact Text.trimEnd_of_shown fun c last => (label.plain c (List.mem_of_getLast? last)).shown
  have body : (first :: (rest ++ gap ++ [':'])).dropLast = label.name ++ gap := by
    rw [name, ← List.cons_append, List.dropLast_concat]
    rfl
  have ends : (first :: (rest ++ gap ++ [':'])).getLast? = some ':' := by
    rw [← List.cons_append, List.getLast?_concat]
  rw [trimmed]
  simp only [Statement.ofText, isDigit_of_startsName starts, starts, ends, body, named,
    Label.read_name]
  rfl

theorem read_register_rename (names : Label → Label) (word : List Char) :
    (Shape.read .register word).map (Operand.rename names) = Shape.read .register word := by
  rw [Shape.read]
  cases readRegister word <;> rfl

/-- Only the second operand of LDI can be a label. -/
theorem zipWith_read_rename (names : Label → Label) (opcode : Opcode) (words : List (List Char)) :
    List.zipWith Shape.read (shapes opcode)
        (if opcode = .ldi then words.modify 1 (replaceName names) else words) =
      (List.zipWith Shape.read (shapes opcode) words).map (Except.map (Operand.rename names)) := by
  have immediate := readImmediate_replaceName names
  have register := read_register_rename names
  cases opcode
  case ldi =>
    rcases words with _ | ⟨first, _ | ⟨second, rest⟩⟩
    · rfl
    · simp [shapes, register]
    · simp [shapes, register, Shape.read.eq_2, immediate]
  all_goals
    rcases words with _ | ⟨first, _ | ⟨second, rest⟩⟩ <;> simp [shapes, register]

theorem statement_rename (names : Label → Label) (mnemonic : List Char)
    (words : List (List Char)) :
    (⟨mnemonic, if Opcode.ofMnemonic? mnemonic = some .ldi
        then words.modify 1 (replaceName names) else words⟩ : Phrase).statement =
      (⟨mnemonic, words⟩ : Phrase).statement.map (Statement.rename names) := by
  cases named : Opcode.ofMnemonic? mnemonic with
  | none => simp [Phrase.statement, named, Except.map]
  | some opcode =>
    have counted : (if opcode = .ldi then words.modify 1 (replaceName names) else words).length =
        words.length := by
      split
      · exact List.length_modify _ _ _
      · rfl
    simp only [Phrase.statement, named, Option.some.injEq, counted, zipWith_read_rename]
    split <;> rfl

section
variable (names : Label → Label)

theorem replaceName_proper (word : List Char) (some : word ≠ [])
    (whole : ∀ c ∈ word, Statement.separates c = false) :
    replaceName names word ≠ [] ∧ ∀ c ∈ replaceName names word, Statement.separates c = false := by
  rcases replaceName_cases names word with ⟨label, -, renamed⟩ | ⟨same, -⟩
  · rw [renamed]
    exact ⟨(names label).name_ne_nil, fun c member => ((names label).plain c member).whole⟩
  · rw [same]
    exact ⟨some, whole⟩

/-- A name does not end in a colon. -/
theorem getLast?_replaceName (word : List Char) :
    (replaceName names word).getLast? = some ':' ↔ word.getLast? = some ':' := by
  have plain (label : Label) : label.name.getLast? ≠ some ':' := fun last =>
    (label.plain ':' (List.mem_of_getLast? last)).colon rfl
  rcases replaceName_cases names word with ⟨label, rfl, renamed⟩ | ⟨same, -⟩
  · rw [renamed]
    exact iff_of_false (plain _) (plain label)
  · rw [same]

/-- A colon ends a line with another operand if it ends the line. -/
theorem getLast?_visible_mapWord (opening operands : List Char) (index : Nat) :
    (Text.visible (opening ++ Text.mapWord Statement.separates (replaceName names) index
      operands)).getLast? = some ':' ↔
    (Text.visible (opening ++ operands)).getLast? = some ':' := by
  rcases Text.mapWord_cases Statement.separates (replaceName names) index operands with
    ⟨same, -⟩ | ⟨front, word, back, rfl, changed, -, isWord⟩
  · rw [same]
  · obtain ⟨some, whole⟩ := replaceName_proper names word isWord.some isWord.whole
    have visible {word : List Char} (whole : ∀ c ∈ word, Statement.separates c = false) :
        Text.visible word = word := by
      refine Text.visible_of_shown fun c member => ?_
      exact (Bool.or_eq_false_iff.mp (whole c member)).2
    rw [changed]
    simp only [Text.visible_append, visible whole, visible isWord.whole, List.getLast?_append]
    have ends := getLast?_replaceName names word
    rcases (Text.visible back).getLast? with _ | c
    · cases first : word.getLast? with
      | none => exact absurd (List.getLast?_eq_none_iff.mp first) isWord.some
      | some c =>
        cases second : (replaceName names word).getLast? with
        | none => exact absurd (List.getLast?_eq_none_iff.mp second) some
        | some d => simpa [first, second] using ends
    · simp

theorem read_of_ofText_eq_label {text : List Char} {label : Label}
    (read : Statement.ofText text = .ok (.label label)) :
    text.getLast? = some ':' ∧ Label.read (Text.trimEnd text.dropLast) = .ok label := by
  cases text with
  | nil => cases read
  | cons first rest =>
    simp only [Statement.ofText] at read
    split at read
    · obtain ⟨value, same⟩ := ofDigits_eq_ok read
      cases same
    · split at read
      · split at read
        · rename_i last
          cases named : Label.read (Text.trimEnd (first :: rest).dropLast) with
          | error cause => rw [named] at read; cases read
          | ok name => rw [named] at read; cases read; exact ⟨last, rfl⟩
        · rw [ofInstruction_eq] at read
          obtain ⟨opcode, -, -, same⟩ := Phrase.statement_eq_ok read
          cases same
      · cases read

/-- A line that neither defines a label nor is an instruction has no names. -/
theorem ofText_unnamed {text : List Char} (instruction : ¬ IsInstruction text)
    (undefining : ∀ label, Statement.ofText (Text.trim text) ≠ .ok (.label label)) :
    (Statement.ofText (Text.trim text)).map (Statement.rename names) =
      Statement.ofText (Text.trim text) := by
  cases read : Statement.ofText (Text.trim text) with
  | error cause => rfl
  | ok statement =>
    cases statement with
    | blank | byte value => rfl
    | label label => exact absurd read (undefining label)
    | instruction opcode operands =>
      refine absurd ?_ instruction
      rcases ofText_eq_ok read with ⟨-, other⟩ | ⟨phrase, opcode, line, -, -, -⟩
      · exact absurd rfl (other opcode operands)
      · rw [IsInstruction, ← Text.head?_trim, ← Text.getLast?_trim]
        cases shown : Text.trim text with
        | nil => rw [shown] at line; cases line
        | cons first rest =>
          rw [shown, Phrase.ofText?] at line
          split at line
          · rename_i opened
            exact ⟨startsName_iff.mpr opened.1, opened.2⟩
          · cases line

theorem isUpper_of_mem_letters (opcode : Opcode) {c : Char} (member : c ∈ opcode.letters) :
    c.isUpper = true := by
  have capitals : opcode.letters.all Char.isUpper = true := by
    cases opcode <;> decide
  exact List.all_eq_true.mp capitals c member

/-- The letters of a mnemonic are letters. -/
theorem startsName_of_ofMnemonic? {word : List Char} {opcode : Opcode}
    (named : Opcode.ofMnemonic? word = some opcode) :
    ∃ first rest, word = first :: rest ∧ startsName first = true := by
  have letters : opcode.letters = word.map Char.toUpper := by
    simpa using List.find?_some named
  cases word with
  | nil => cases opcode <;> cases letters
  | cons first rest =>
    refine ⟨first, rest, rfl, ?_⟩
    have capital : first.toUpper.isUpper = true := by
      refine isUpper_of_mem_letters opcode ?_
      rw [letters]
      exact List.mem_cons_self
    rw [Char.isUpper_toUpper_eq_isAlpha] at capital
    rw [startsName, capital, Bool.true_or]

theorem ofText_renameText_colon {text : List Char}
    (defines : (Text.trim text).getLast? = some ':') :
    Statement.ofText (Text.trim (renameText names text)) =
      (Statement.ofText (Text.trim text)).map (Statement.rename names) := by
  obtain ⟨gap, back, between, after, split⟩ := exists_definition defines
  have indented : ∀ c ∈ text.takeWhile Text.isBlank, Text.isBlank c = true :=
    fun c => List.mem_takeWhile_imp
  have behind : text.drop ((text.takeWhile Text.isBlank).length +
      (Text.trimEnd (Text.trim text).dropLast).length) = gap ++ ':' :: back := by
    rw [← List.length_append]
    exact (congrArg (List.drop _) split).trans List.drop_left
  rw [renameText, if_pos defines]
  dsimp only
  rw [behind]
  rcases replaceName_cases names (Text.trimEnd (Text.trim text).dropLast) with
    ⟨label, name, renamed⟩ | ⟨same, unread⟩
  · have read := ofText_definition label indented between after
    rw [name] at split
    rw [← split] at read
    rw [renamed, ofText_definition (names label) indented between after, read]
    rfl
  · have undefining (label : Label) : Statement.ofText (Text.trim text) ≠ .ok (.label label) :=
      fun read => unread label (read_of_ofText_eq_label read).2
    have instruction : ¬ IsInstruction text := by
      rw [IsInstruction, ← Text.getLast?_trim]
      exact fun instruction => instruction.2 defines
    rw [same, ← split, ofText_unnamed names instruction undefining]

theorem ofText_ldi {indent mnemonic operands : List Char}
    (blank : ∀ c ∈ indent, Text.isBlank c = true)
    (whole : ∀ c ∈ mnemonic, Text.isBlank c = false)
    (stops : ∀ c ∈ operands.head?, Text.isBlank c = true)
    (loads : Opcode.ofMnemonic? mnemonic = some .ldi)
    (closes : (Text.visible (indent ++ mnemonic ++ operands)).getLast? ≠ some ':') :
    Statement.ofText (Text.trim (indent ++ mnemonic ++
        Text.mapWord Statement.separates (replaceName names) 1 operands)) =
      (Statement.ofText (Text.trim (indent ++ mnemonic ++ operands))).map
        (Statement.rename names) := by
  obtain ⟨first, rest, rfl, starts⟩ := startsName_of_ofMnemonic? loads
  have opens (operands : List Char) :
      (Text.visible (indent ++ first :: rest ++ operands)).head?.any startsName = true := by
    rw [List.append_assoc, Text.visible_append, Text.visible_eq_nil_iff.mpr blank,
      List.nil_append, List.cons_append, Text.visible_cons (whole first List.mem_cons_self)]
    exact starts
  have old : IsInstruction (indent ++ first :: rest ++ operands) := ⟨opens operands, closes⟩
  have new : IsInstruction (indent ++ first :: rest ++
      Text.mapWord Statement.separates (replaceName names) 1 operands) :=
    ⟨opens _, mt (getLast?_visible_mapWord names _ _ _).mp closes⟩
  have stopping : ∀ c ∈ (Text.mapWord Statement.separates (replaceName names) 1 operands).head?,
      Text.isBlank c = true := by
    rw [Text.head?_mapWord]
    exact stops
  have statements :=
    statement_rename names (first :: rest) (Text.words Statement.separates operands)
  rw [if_pos loads] at statements
  rw [ofText_of_isInstruction old, ofText_of_isInstruction new,
    inText_of_parts blank whole (List.cons_ne_nil first rest) stops,
    inText_of_parts blank whole (List.cons_ne_nil first rest) stopping,
    Text.words_mapWord (replaceName_proper names), statements]

/-- What a line says is renamed as the line is. -/
theorem ofText_renameText (text : List Char) :
    Statement.ofText (Text.trim (renameText names text)) =
      (Statement.ofText (Text.trim text)).map (Statement.rename names) := by
  by_cases defines : (Text.trim text).getLast? = some ':'
  · exact ofText_renameText_colon names defines
  have closes := defines
  rw [Text.getLast?_trim] at closes
  obtain ⟨split, blank, whole, stops⟩ := parts_inText text
  rw [renameText, if_neg defines]
  dsimp only
  by_cases loads : Opcode.ofMnemonic?
      ((Text.trimStart text).takeWhile fun c => !Text.isBlank c) = some .ldi
  · rw [split] at closes
    have renamed := ofText_ldi names blank whole stops loads closes
    rw [← split] at renamed
    rw [if_pos loads, renamed]
  · rw [if_neg loads]
    by_cases instruction : IsInstruction text
    · have statements := statement_rename names (Phrase.inText text).mnemonic
        (Phrase.inText text).words
      rw [ofText_of_isInstruction instruction, ← statements]
      exact congrArg (fun words => (Phrase.mk _ words).statement) (if_neg loads).symm
    · refine (ofText_unnamed names instruction fun label read => ?_).symm
      exact defines (read_of_ofText_eq_label read).1

end

end LS8.Assembly
