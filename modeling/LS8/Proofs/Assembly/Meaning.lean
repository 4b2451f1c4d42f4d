import LS8.Proofs.Assembly.Operands
import LS8.Proofs.Assembly.Streaming
import LS8.Proofs.Text.Trimming

/-! What one line means. A line is accepted or refused for one reason, by the first case that
applies, and what it adds depends on nothing of the source in front of it but the number of bytes
and the labels there. -/
namespace LS8.Assembly

/-- At most eight digits, each of them binary, and no mark in front of them. -/
def IsBinary (text : List Char) : Prop := text.length ≤ 8 ∧ ∀ c ∈ text, c = '0' ∨ c = '1'

section
variable (emitted : Nat) (defined : List Label)

/-- What a name comes to in front of a colon. -/
inductive Defines : List Char → Except Cause Contribution → Prop
  | refused {name : List Char} {cause : Cause} : IsNamed name (.error cause) →
    Defines name (.error cause)
  | duplicate {name : List Char} {label : Label} : IsNamed name (.ok label) → label ∈ defined →
    Defines name (.error .duplicateLabel)
  | crowded {name : List Char} {label : Label} : IsNamed name (.ok label) → label ∉ defined →
    maxLabels ≤ defined.length → Defines name (.error .tooManyLabels)
  | fresh {name : List Char} {label : Label} : IsNamed name (.ok label) → label ∉ defined →
    defined.length < maxLabels → Defines name (.ok (.label label))

/-- What a mnemonic and words come to. The case of the mnemonic does not matter. -/
inductive Instructs : List Char → List (List Char) → Except Cause Contribution → Prop
  | unknown {mnemonic : List Char} {words : List (List Char)} :
    (∀ opcode : Opcode, mnemonic.map Char.toUpper ≠ opcode.letters) →
    Instructs mnemonic words (.error .unknownOperation)
  | miscounted {mnemonic : List Char} {words : List (List Char)} {opcode : Opcode} :
    mnemonic.map Char.toUpper = opcode.letters → words.length ≠ opcode.operandCount →
    Instructs mnemonic words (.error (.wrongOperandCount opcode.operandCount words.length))
  | full {mnemonic : List Char} {words : List (List Char)} {opcode : Opcode} :
    mnemonic.map Char.toUpper = opcode.letters → words.length = opcode.operandCount →
    programCapacity ≤ emitted → Instructs mnemonic words (.error .programTooLarge)
  | placed {mnemonic : List Char} {words : List (List Char)} {opcode : Opcode}
    {result : Except Cause (List Operand)} :
    mnemonic.map Char.toUpper = opcode.letters → words.length = opcode.operandCount →
    emitted < programCapacity → PlacedAs (emitted + 1) ((shapes opcode).zip words) result →
    Instructs mnemonic words (result.map fun operands => .bytes (.byte opcode.byte :: operands))

/-- What a text without margins comes to. -/
inductive TextMeans : List Char → Except Cause Contribution → Prop
  | blank : TextMeans [] (.ok (.bytes []))
  | noBinary {text : List Char} : text.head?.any Char.isDigit = true → ¬IsBinary text →
    TextMeans text (.error .invalidBinaryLiteral)
  | full {text : List Char} : text.head?.any Char.isDigit = true → IsBinary text →
    programCapacity ≤ emitted → TextMeans text (.error .programTooLarge)
  | byte {text : List Char} {value : UInt8} : text.head?.any Char.isDigit = true → IsBinary text →
    emitted < programCapacity → Numeral.AmountTo 2 text value.toNat →
    TextMeans text (.ok (.bytes [.byte value]))
  | other {text : List Char} {first : Char} : text.head? = some first → first.isDigit = false →
    ¬OpensName first → TextMeans text (.error .invalidBinaryLiteral)
  | label {front name : List Char} {first : Char} {verdict : Except Cause Contribution} :
    (front ++ [':']).head? = some first → OpensName first → Text.IsTrimmedEnd front name →
    Defines defined name verdict → TextMeans (front ++ [':']) verdict
  | instruction {mnemonic rest : List Char} {first : Char}
    {verdict : Except Cause Contribution} :
    (mnemonic ++ rest).head? = some first → OpensName first →
    (mnemonic ++ rest).getLast? ≠ some ':' →
    (∀ c ∈ mnemonic, Text.isBlank c = false) → (∀ c ∈ rest.head?, Text.isBlank c = true) →
    Instructs emitted mnemonic
      ((rest.splitOnP fun c => c == ',' || Text.isBlank c).filter (!·.isEmpty)) verdict →
    TextMeans (mnemonic ++ rest) verdict

/-- What a line comes to, its comment removed. -/
inductive Means : List UInt8 → Except Cause Contribution → Prop
  | undecoded {line : List UInt8} : (∀ text, line ≠ Text.encode text) →
    Means line (.error .invalidUtf8)
  | text {text trimmed : List Char} {verdict : Except Cause Contribution} :
    Text.IsTrimmed text trimmed → TextMeans emitted defined trimmed verdict →
    Means (Text.encode text) verdict

variable {emitted defined}

theorem ofMnemonic?_eq_some_iff {word : List Char} {opcode : Opcode} :
    Opcode.ofMnemonic? word = some opcode ↔ word.map Char.toUpper = opcode.letters := by
  constructor
  · intro found
    simpa [eq_comm] using List.find?_some found
  · intro same
    have capitals : opcode.letters.map Char.toUpper = opcode.letters := by
      cases opcode <;> decide
    rw [Opcode.ofMnemonic?, same, ← capitals]
    exact Opcode.ofMnemonic?_letters opcode

theorem defines_iff {name : List Char} {verdict : Except Cause Contribution} :
    Defines defined name verdict ↔
      verdict = ((Label.read name).map .label).bind (Statement.contribution emitted defined) := by
  constructor
  · rintro (named | ⟨named, member⟩ | ⟨named, unused, crowded⟩ | ⟨named, unused, room⟩)
    · rw [← isNamed_iff.mp named]
      rfl
    · rw [← isNamed_iff.mp named]
      exact (if_pos member).symm
    · rw [← isNamed_iff.mp named]
      exact ((if_neg unused).trans (if_neg (Nat.not_lt.mpr crowded))).symm
    · rw [← isNamed_iff.mp named]
      exact ((if_neg unused).trans (if_pos room)).symm
  · rintro rfl
    cases read : Label.read name with
    | error cause => exact .refused (isNamed_iff.mpr read.symm)
    | ok label =>
      have named : IsNamed name (.ok label) := isNamed_iff.mpr read.symm
      change Defines defined name (if _ then _ else _)
      split
      · exact .duplicate named ‹_›
      · split
        · exact .fresh named ‹_› ‹_›
        · exact .crowded named ‹_› (Nat.not_lt.mp ‹_›)

theorem statement_unknown {mnemonic : List Char} {words : List (List Char)}
    (unknown : ∀ opcode : Opcode, mnemonic.map Char.toUpper ≠ opcode.letters) :
    Phrase.statement ⟨mnemonic, words⟩ = .error .unknownOperation := by
  have none : Opcode.ofMnemonic? mnemonic = none := Option.eq_none_iff_forall_ne_some.mpr
    fun opcode found => unknown opcode (ofMnemonic?_eq_some_iff.mp found)
  rw [Phrase.statement, none]

/-- The words of an instruction are counted before its opcode is placed, and the opcode is placed
before a word is read. -/
theorem statement_known {mnemonic : List Char} {words : List (List Char)} {opcode : Opcode}
    (known : mnemonic.map Char.toUpper = opcode.letters) :
    (Phrase.statement ⟨mnemonic, words⟩).bind (Statement.contribution emitted defined) =
      if words.length = opcode.operandCount then
        if emitted < programCapacity then
          (fit (emitted + 1) (((shapes opcode).zip words).map fun place => place.1.read place.2)).map
            fun operands => .bytes (.byte opcode.byte :: operands)
        else .error .programTooLarge
      else .error (.wrongOperandCount opcode.operandCount words.length) := by
  rw [Phrase.statement, ofMnemonic?_eq_some_iff.mpr known]
  dsimp only
  rw [length_shapes]
  split
  · change (if _ then _ else _ : Except Cause (List Operand)).map _ = _
    rw [List.zip, List.map_zipWith]
    split
    · cases fit (emitted + 1) (List.zipWith Shape.read (shapes opcode) words) <;> rfl
    · rfl
  · rfl

theorem instructs_iff {mnemonic : List Char} {words : List (List Char)}
    {verdict : Except Cause Contribution} :
    Instructs emitted mnemonic words verdict ↔
      verdict = (Phrase.statement ⟨mnemonic, words⟩).bind
        (Statement.contribution emitted defined) := by
  constructor
  · rintro (unknown | ⟨known, miscounted⟩ | ⟨known, counted, full⟩ | ⟨known, counted, room, placed⟩)
    · rw [statement_unknown unknown]
      rfl
    · rw [statement_known known, if_neg miscounted]
    · rw [statement_known known, if_pos counted, if_neg (Nat.not_lt.mpr full)]
    · rw [statement_known known, if_pos counted, if_pos room, ← placedAs_iff.mp placed]
  · rintro rfl
    by_cases named : ∃ opcode : Opcode, mnemonic.map Char.toUpper = opcode.letters
    · obtain ⟨opcode, known⟩ := named
      rw [statement_known known]
      split
      · split
        · exact .placed known ‹_› ‹_› (placedAs_iff.mpr rfl)
        · exact .full known ‹_› (Nat.not_lt.mp ‹_›)
      · exact .miscounted known ‹_›
    · have unknown := not_exists.mp named
      rw [statement_unknown unknown]
      exact .unknown unknown

theorem ofDigits_eq_ok_of_amountTo {text : List Char} {value : UInt8} (binary : IsBinary text)
    (amount : Numeral.AmountTo 2 text value.toNat) : Statement.ofDigits text = .ok (.byte value) := by
  obtain ⟨short, digits⟩ := binary
  have all : text.all Statement.isBinaryDigit = true := List.all_eq_true.mpr
    fun c member => by simpa [Statement.isBinaryDigit] using digits c member
  have read : Numeral.readByte? 2 text = some value :=
    (Numeral.readByte?_eq_some_iff (by decide)).mpr (.inl amount)
  simp [Statement.ofDigits, short, all, read]

theorem ofDigits_of_not_isBinary {text : List Char} (odd : ¬IsBinary text) :
    Statement.ofDigits text = .error .invalidBinaryLiteral := by
  refine if_neg fun accepted => odd ?_
  obtain ⟨short, all⟩ := Bool.and_eq_true_iff.mp accepted
  refine ⟨of_decide_eq_true short, fun c member => ?_⟩
  simpa [Statement.isBinaryDigit] using List.all_eq_true.mp all c member

/-- Eight digits are few enough for a byte. -/
theorem IsBinary.exists_amountTo {text : List Char} (binary : IsBinary text) (some : text ≠ []) :
    ∃ value : UInt8, Numeral.AmountTo 2 text value.toNat := by
  obtain ⟨short, digits⟩ := binary
  obtain ⟨n, small, amount⟩ := Numeral.exists_amountTo (by decide : 1 < 2) some (by
    intro c member
    rcases digits c member with rfl | rfl
    · exact ⟨0, by decide, .inl rfl⟩
    · exact ⟨1, by decide, .inl rfl⟩)
  have byte : n < 256 := Nat.lt_of_lt_of_le small (Nat.pow_le_pow_right (by decide) short)
  refine ⟨UInt8.ofNat n, ?_⟩
  rwa [UInt8.toNat_ofNat_of_lt' byte]

theorem ofText_of_isDigit {text : List Char} (opens : text.head?.any Char.isDigit = true) :
    Statement.ofText text = Statement.ofDigits text := by
  cases text with
  | nil => cases opens
  | cons first rest => exact if_pos opens

section
variable {text : List Char} {first : Char} (opens : text.head? = some first)
include opens

theorem ofText_of_not_opensName (digit : first.isDigit = false) (other : ¬OpensName first) :
    Statement.ofText text = .error .invalidBinaryLiteral := by
  obtain ⟨rest, rfl⟩ := List.head?_eq_some_iff.mp opens
  simp [Statement.ofText, digit, mt startsName_iff.mp other]

theorem ofText_of_opensName (name : OpensName first) :
    Statement.ofText text =
      if text.getLast? = some ':' then (Label.read (Text.trimEnd text.dropLast)).map .label
      else Statement.ofInstruction text := by
  obtain ⟨rest, rfl⟩ := List.head?_eq_some_iff.mp opens
  have starts := startsName_iff.mpr name
  simp only [Statement.ofText, isDigit_of_startsName starts, starts]
  rfl

end

theorem ofInstruction_append {mnemonic rest : List Char}
    (whole : ∀ c ∈ mnemonic, Text.isBlank c = false)
    (stops : ∀ c ∈ rest.head?, Text.isBlank c = true) :
    Statement.ofInstruction (mnemonic ++ rest) = Phrase.statement
      ⟨mnemonic, (rest.splitOnP fun c => c == ',' || Text.isBlank c).filter (!·.isEmpty)⟩ := by
  obtain ⟨front, back⟩ := Text.takeWhile_dropWhile_shown whole stops
  rw [ofInstruction_eq, front, back, Text.words, Text.pieces_eq_splitOnP]
  rfl

theorem contribution_byte (value : UInt8) : (Statement.byte value).contribution emitted defined =
    if emitted < programCapacity then .ok (.bytes [.byte value])
    else .error .programTooLarge := by
  by_cases room : emitted < programCapacity
  all_goals simp [Statement.contribution, Statement.operands, fit, Except.map, room]

theorem TextMeans.eq_ofText {text : List Char} {verdict : Except Cause Contribution}
    (means : TextMeans emitted defined text verdict) :
    verdict = (Statement.ofText text).bind (Statement.contribution emitted defined) := by
  rcases means with _ | ⟨opens, odd⟩ | ⟨opens, binary, full⟩ | ⟨opens, binary, room, amount⟩ |
    ⟨opens, digit, other⟩ | ⟨opens, name, trimmed, defines⟩ |
    ⟨opens, name, closes, whole, stops, instructs⟩
  case blank => rfl
  case noBinary =>
    rw [ofText_of_isDigit opens, ofDigits_of_not_isBinary odd]
    rfl
  case full =>
    have some : text ≠ [] := by
      rintro rfl
      cases opens
    obtain ⟨value, amount⟩ := binary.exists_amountTo some
    rw [ofText_of_isDigit opens, ofDigits_eq_ok_of_amountTo binary amount, Except.bind,
      contribution_byte, if_neg (Nat.not_lt.mpr full)]
  case byte =>
    rw [ofText_of_isDigit opens, ofDigits_eq_ok_of_amountTo binary amount, Except.bind,
      contribution_byte, if_pos room]
  case other =>
    rw [ofText_of_not_opensName opens digit other]
    rfl
  case label =>
    rw [ofText_of_opensName opens name, if_pos List.getLast?_concat, List.dropLast_concat,
      ← Text.isTrimmedEnd_iff.mp trimmed]
    exact defines_iff.mp defines
  case instruction =>
    rw [ofText_of_opensName opens name, if_neg closes, ofInstruction_append whole stops]
    exact instructs_iff.mp instructs

theorem textMeans_ofText (text : List Char) : TextMeans emitted defined text
    ((Statement.ofText text).bind (Statement.contribution emitted defined)) := by
  rcases text with _ | ⟨first, rest⟩
  · exact .blank
  by_cases digit : first.isDigit = true
  · have opens : (first :: rest).head?.any Char.isDigit = true := digit
    rw [ofText_of_isDigit opens]
    by_cases binary : IsBinary (first :: rest)
    · obtain ⟨value, amount⟩ := binary.exists_amountTo (List.cons_ne_nil first rest)
      rw [ofDigits_eq_ok_of_amountTo binary amount, Except.bind, contribution_byte]
      split
      · exact .byte opens binary ‹_› amount
      · exact .full opens binary (Nat.not_lt.mp ‹_›)
    · rw [ofDigits_of_not_isBinary binary]
      exact .noBinary opens binary
  have opens : (first :: rest).head? = some first := rfl
  by_cases name : OpensName first
  · rw [ofText_of_opensName opens name]
    by_cases closes : (first :: rest).getLast? = some ':'
    · obtain ⟨front, split⟩ := List.getLast?_eq_some_iff.mp closes
      rw [if_pos closes]
      rw [split] at opens ⊢
      rw [List.dropLast_concat]
      exact .label opens name (Text.isTrimmedEnd_iff.mpr rfl) (defines_iff.mpr rfl)
    · obtain ⟨mnemonic, rest, split, whole, stops⟩ := Text.exists_shown_append (first :: rest)
      rw [if_neg closes]
      rw [split] at opens closes ⊢
      rw [ofInstruction_append whole stops]
      exact .instruction opens name closes whole stops (instructs_iff.mpr rfl)
  · have digit := Bool.eq_false_iff.mpr digit
    rw [ofText_of_not_opensName opens digit name]
    exact .other opens digit name

theorem means_iff {line : List UInt8} {verdict : Except Cause Contribution} :
    Means emitted defined line verdict ↔
      verdict = (Statement.read line).bind (Statement.contribution emitted defined) := by
  constructor
  · rintro (undecoded | ⟨trimmed, text⟩)
    · rw [Statement.read, Text.decode?_eq_none_iff.mpr undecoded]
      rfl
    · rw [read_encode, ← Text.isTrimmed_iff.mp trimmed]
      exact text.eq_ofText
  · rintro rfl
    cases decoded : Text.decode? line with
    | none =>
      rw [Statement.read, decoded]
      exact .undecoded (Text.decode?_eq_none_iff.mp decoded)
    | some text =>
      obtain rfl := Text.decode?_eq_some_iff.mp decoded
      rw [read_encode]
      exact .text (Text.isTrimmed_iff.mpr rfl) (textMeans_ofText _)

end

end LS8.Assembly
