import LS8.Proofs.Assembly.Forms
import LS8.Proofs.Assembly.TwoPass
import LS8.Proofs.Text.Character

/-! Instruction lines. A line that starts like a name and does not end in a colon is an
instruction: a mnemonic and the words for its operands. It is read as the operation of the machine
that its mnemonic names, or refused. -/
namespace LS8.Assembly

def OpensName (c : Char) : Prop := ('A' ≤ c ∧ c ≤ 'Z') ∨ ('a' ≤ c ∧ c ≤ 'z') ∨ c = '_'

instance : DecidablePred OpensName := fun _ => inferInstanceAs (Decidable (_ ∨ _))

theorem startsName_iff {c : Char} : startsName c = true ↔ OpensName c := by
  rw [startsName, Bool.or_eq_true_iff, Text.isAlpha_iff, beq_iff_eq, or_assoc]
  rfl

/-- A mnemonic and the words behind it. -/
structure Phrase where
  mnemonic : List Char
  words : List (List Char)
  deriving DecidableEq, Repr

/-- The phrase of a text without blanks at its ends. The mnemonic ends at a blank, and a word at a
blank or a comma. -/
def Phrase.ofText? : List Char → Option Phrase
  | [] => none
  | first :: rest =>
    let text := first :: rest
    if OpensName first ∧ text.getLast? ≠ some ':' then
      some ⟨text.takeWhile fun c => !Text.isBlank c,
        Text.words (fun c => c == ',' || Text.isBlank c)
          (text.dropWhile fun c => !Text.isBlank c)⟩
    else none

/-- The phrase of a line's bytes. -/
def Phrase.read? (line : List UInt8) : Option Phrase :=
  (Text.decode? line).bind fun text => ofText? (Text.trim text)

def SourceLine.phrase? (line : SourceLine) : Option Phrase := Phrase.read? line.kept

/-- The label that a line defines. -/
def SourceLine.label? (line : SourceLine) : Option Label :=
  match line.read with
  | .ok (.label label) => some label
  | _ => none

theorem isDigit_of_startsName {c : Char} (starts : startsName c = true) : c.isDigit = false := by
  refine Bool.eq_false_iff.mpr fun digit => ?_
  obtain ⟨-, low⟩ := Char.isDigit_iff_toNat.mp digit
  have codes : '9'.toNat = 57 ∧ 'A'.toNat = 65 ∧ 'a'.toNat = 97 ∧ '_'.toNat = 95 := by decide
  rcases startsName_iff.mp starts with ⟨upper, -⟩ | ⟨lower, -⟩ | rfl
  · have above : 'A'.toNat ≤ c.toNat := upper
    omega
  · have above : 'a'.toNat ≤ c.toNat := lower
    omega
  · omega

theorem ofDigits_eq_ok {text : List Char} {statement : Statement}
    (read : Statement.ofDigits text = .ok statement) : ∃ value, statement = .byte value := by
  unfold Statement.ofDigits at read
  split at read
  · split at read
    · rename_i value _
      exact ⟨value, (Except.ok.inj read).symm⟩
    · contradiction
  · contradiction

/-- What an instruction says. -/
def Phrase.statement (phrase : Phrase) : Except Cause Statement :=
  match Opcode.ofMnemonic? phrase.mnemonic with
  | none => .error .unknownOperation
  | some opcode =>
    if phrase.words.length = (shapes opcode).length then
      .ok (.instruction opcode.byte (List.zipWith Shape.read (shapes opcode) phrase.words))
    else .error (.wrongOperandCount (shapes opcode).length phrase.words.length)

/-- An instruction is looked up among the forms of the assembler, and is the one that the machine has
by that name. -/
theorem ofInstruction_eq (text : List Char) : Statement.ofInstruction text =
    Phrase.statement ⟨text.takeWhile fun c => !Text.isBlank c,
      Text.words Statement.separates (text.dropWhile fun c => !Text.isBlank c)⟩ := by
  simp only [Statement.ofInstruction, Phrase.statement, Form.named?_eq]
  cases Opcode.ofMnemonic? (text.takeWhile fun c => !Text.isBlank c) <;> rfl

theorem Phrase.statement_eq_ok {phrase : Phrase} {statement : Statement}
    (read : phrase.statement = .ok statement) :
    ∃ opcode, Opcode.ofMnemonic? phrase.mnemonic = some opcode ∧
      phrase.words.length = opcode.operandCount ∧
      statement = .instruction opcode.byte
        (List.zipWith Shape.read (shapes opcode) phrase.words) := by
  unfold Phrase.statement at read
  split at read
  · contradiction
  · rename_i opcode named
    split at read
    · rename_i counted
      refine ⟨opcode, named, ?_, (Except.ok.inj read).symm⟩
      rw [counted, length_shapes]
    · contradiction

/-- A line is read as an instruction if it is an instruction line, and then as the operation that
its mnemonic names with the operands that its words are. -/
theorem ofText_eq_ok {text : List Char} {statement : Statement}
    (read : Statement.ofText text = .ok statement) :
    (Phrase.ofText? text = none ∧ ∀ opcode operands, statement ≠ .instruction opcode operands) ∨
    ∃ phrase opcode, Phrase.ofText? text = some phrase ∧
      Opcode.ofMnemonic? phrase.mnemonic = some opcode ∧
      phrase.words.length = opcode.operandCount ∧
      statement = .instruction opcode.byte (List.zipWith Shape.read (shapes opcode) phrase.words) := by
  cases text with
  | nil =>
    cases read
    refine .inl ⟨rfl, ?_⟩
    intro opcode operands same
    cases same
  | cons first rest =>
    simp only [Statement.ofText] at read
    by_cases starts : startsName first = true
    · simp only [isDigit_of_startsName starts, starts, Bool.false_eq_true, if_false, if_true] at read
      by_cases labelled : (first :: rest).getLast? = some ':'
      · rw [if_pos labelled] at read
        refine .inl ⟨by simp [Phrase.ofText?, labelled], ?_⟩
        rintro opcode operands rfl
        cases named : Label.read (Text.trimEnd (first :: rest).dropLast) with
        | error cause => rw [named] at read; cases read
        | ok label => rw [named] at read; cases read
      · rw [if_neg labelled] at read
        rw [ofInstruction_eq] at read
        obtain ⟨opcode, named, counted, same⟩ := Phrase.statement_eq_ok read
        have line : Phrase.ofText? (first :: rest) = some
            ⟨(first :: rest).takeWhile fun c => !Text.isBlank c, Text.words Statement.separates
              ((first :: rest).dropWhile fun c => !Text.isBlank c)⟩ := by
          exact if_pos ⟨startsName_iff.mp starts, labelled⟩
        exact .inr ⟨_, opcode, line, named, counted, same⟩
    · refine .inl ⟨if_neg fun line => starts (startsName_iff.mpr line.1), ?_⟩
      rintro opcode operands rfl
      by_cases digits : first.isDigit = true
      · rw [if_pos digits] at read
        obtain ⟨value, same⟩ := ofDigits_eq_ok read
        cases same
      · simp [digits, starts] at read

theorem read_eq_phrase {line : List UInt8} {statement : Statement}
    (read : Statement.read line = .ok statement) :
    (Phrase.read? line = none ∧ ∀ opcode operands, statement ≠ .instruction opcode operands) ∨
    ∃ phrase opcode, Phrase.read? line = some phrase ∧
      Opcode.ofMnemonic? phrase.mnemonic = some opcode ∧
      phrase.words.length = opcode.operandCount ∧
      statement = .instruction opcode.byte (List.zipWith Shape.read (shapes opcode) phrase.words) := by
  unfold Statement.read at read
  unfold Phrase.read?
  cases decoded : Text.decode? line with
  | none =>
    rw [decoded] at read
    contradiction
  | some text =>
    rw [decoded] at read
    exact ofText_eq_ok read

end LS8.Assembly
