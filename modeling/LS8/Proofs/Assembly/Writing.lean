import LS8.Proofs.Assembly.Naming
import LS8.Proofs.Text.Numeral

/-! Writing lines. A register, a number in each notation there is, a whole instruction and a single
byte are read as what they were written for. -/
namespace LS8.Assembly

/-- The three notations, with any zeros in front that leave a line short. -/
structure IsNotation (style : Numeral.Style) : Prop where
  known : (style.lead, style.base) ∈ [("", 10), ("0x", 16), ("0b", 2)]
  narrow : style.width ≤ 16

namespace Shape

def write (style : Numeral.Style) : Shape → UInt8 → List Char
  | register, index => ['R', Nat.digitChar index.toNat]
  | immediate, value => (style.write value.toNat).toList

/-- What can be written for an operand. -/
def Takes : Shape → UInt8 → Prop
  | register, index => index < 8
  | immediate, _ => True

end Shape

theorem isDigit_of_digit? {base value : Nat} (low : base ≤ 10) {c : Char}
    (read : Numeral.digit? base c = some value) : c.isDigit = true := by
  have small := Numeral.digit?_lt read
  rcases Numeral.digit?_cases read with ⟨digit, -⟩ | ⟨-, large⟩
  · exact digit
  · omega

theorem continuesName_of_digit? {base value : Nat} {c : Char}
    (read : Numeral.digit? base c = some value) : continuesName c = true := by
  rcases Numeral.digit?_cases read with ⟨digit, -⟩ | ⟨letter, -⟩
  · simp [continuesName, Char.isAlphanum, digit]
  · simp [continuesName, Char.isAlphanum, letter]

theorem isBinaryDigit_of_digit? {value : Nat} {c : Char}
    (read : Numeral.digit? 2 c = some value) : Statement.isBinaryDigit c = true := by
  have small := Numeral.digit?_lt read
  rcases Numeral.digit?_cases read with ⟨-, code⟩ | ⟨-, large⟩
  · have either : c.toNat = '0'.toNat ∨ c.toNat = '1'.toNat := by
      have codes : '0'.toNat = 48 ∧ '1'.toNat = 49 := by decide
      omega
    rw [Char.toNat_inj, Char.toNat_inj] at either
    simpa [Statement.isBinaryDigit] using either
  · omega

/-- Digits alone are read in decimal. -/
theorem readNumber?_decimal {digits : List Char} (decimal : ∀ c ∈ digits, c.isDigit = true) :
    readNumber? digits = Numeral.readByte? 10 digits := by
  unfold readNumber?
  split
  · exact absurd (decimal 'x' (by simp)) (by decide)
  · exact absurd (decimal 'b' (by simp)) (by decide)
  · rfl

section
variable {style : Numeral.Style}

theorem IsNotation.cases (isNotation : IsNotation style) :
    (style.lead = "" ∧ style.base = 10) ∨ (style.lead = "0x" ∧ style.base = 16) ∨
      (style.lead = "0b" ∧ style.base = 2) := by
  simpa using isNotation.known

theorem IsNotation.base (isNotation : IsNotation style) : 1 < style.base ∧ style.base ≤ 16 := by
  have cases := isNotation.cases
  omega

/-- What is written for a number is read as that number. -/
theorem readImmediate_write (isNotation : IsNotation style) (value : UInt8) :
    readImmediate (style.write value.toNat).toList = .ok (.byte value) := by
  obtain ⟨some, few⟩ := isNotation.base
  have read := Numeral.readByte?_digits some few value
  have number {word : List Char} (opens : word.head?.any Char.isDigit = true)
      (number : readNumber? word = .some value) : readImmediate word = .ok (.byte value) := by
    rw [readImmediate, if_pos opens, number]
  rw [Numeral.Style.toList_write]
  rcases isNotation.cases with ⟨lead, base⟩ | ⟨lead, base⟩ | ⟨lead, base⟩
  · have decimal : ∀ c ∈ style.digits value.toNat, c.isDigit = true := by
      intro c member
      obtain ⟨digit, known⟩ := Numeral.exists_digit?_digits some few value.toNat c member
      exact isDigit_of_digit? base.le known
    have opens : (style.digits value.toNat).head?.any Char.isDigit = true := by
      cases written : style.digits value.toNat with
      | nil => exact absurd written (Numeral.digits_ne_nil _)
      | cons c rest => exact decimal c (by simp [written])
    rw [base] at read
    rw [lead]
    refine number opens ?_
    rw [String.toList_empty, List.nil_append, readNumber?_decimal decimal, read]
  · rw [base] at read
    rw [lead]
    exact number rfl read
  · rw [base] at read
    rw [lead]
    exact number rfl read

theorem digitChar_register {index : UInt8} (inside : index < 8) :
    readRegister ['R', Nat.digitChar index.toNat] = .ok index ∧
      continuesName (Nat.digitChar index.toNat) = true := by
  have registers : ∀ n < 8, readRegister ['R', Nat.digitChar n] = .ok (UInt8.ofNat n) ∧
      continuesName (Nat.digitChar n) = true := by
    decide
  have number := registers index.toNat (UInt8.lt_iff_toNat_lt.mp inside)
  rwa [UInt8.ofNat_toNat] at number

/-- What is written for an operand is read as that operand. -/
theorem read_write (isNotation : IsNotation style) {shape : Shape} {value : UInt8}
    (takes : shape.Takes value) : shape.read (shape.write style value) = .ok (.byte value) := by
  cases shape with
  | register =>
    rw [Shape.read, Shape.write, (digitChar_register takes).1]
    rfl
  | immediate => exact readImmediate_write isNotation value

/-- A word of a listing is not empty and not long, and is read as one word. -/
structure IsShortWord (word : List Char) : Prop where
  some : word ≠ []
  plain : ∀ c ∈ word, continuesName c = true
  short : word.length ≤ 18

theorem isShortWord_write (isNotation : IsNotation style) {shape : Shape} {value : UInt8}
    (takes : shape.Takes value) : IsShortWord (shape.write style value) := by
  cases shape with
  | register =>
    have digit := (digitChar_register takes).2
    have letter : continuesName 'R' = true := by decide
    exact ⟨List.cons_ne_nil _ _, by simp [Shape.write, letter, digit], by simp [Shape.write]⟩
  | immediate =>
    obtain ⟨some, few⟩ := isNotation.base
    have narrow := isNotation.narrow
    have length := Numeral.length_digits_le some value
    have lead : (∀ c ∈ style.lead.toList, continuesName c = true) ∧
        style.lead.toList.length ≤ 2 := by
      rcases isNotation.cases with ⟨lead, -⟩ | ⟨lead, -⟩ | ⟨lead, -⟩ <;> rw [lead]
      all_goals exact ⟨List.all_eq_true.mp (by decide), by decide⟩
    rw [Shape.write, Numeral.Style.toList_write]
    refine ⟨by simp [Numeral.digits_ne_nil], ?_, ?_⟩
    · intro c member
      rcases List.mem_append.mp member with front | digit
      · exact lead.1 c front
      · obtain ⟨number, read⟩ := Numeral.exists_digit?_digits some few value.toNat c digit
        exact continuesName_of_digit? read
    · rw [List.length_append]
      omega

end

/-- Words behind a gap, with a comma and a space between them. -/
def writeWords (gap : List Char) : List (List Char) → List Char
  | [] => []
  | word :: rest => gap ++ word ++ writeWords [',', ' '] rest

section
variable {gap : List Char} {words : List (List Char)}

theorem head?_writeWords (wide : gap ≠ []) :
    ∀ c ∈ (writeWords gap words).head?, c ∈ gap := by
  intro c first
  cases words with
  | nil => cases first
  | cons word rest =>
    rw [writeWords, List.append_assoc, List.head?_append_of_ne_nil _ wide] at first
    exact List.mem_of_head? first

/-- The words that are written are the words that are read. -/
theorem words_writeWords (wide : gap ≠ []) (parts : ∀ c ∈ gap, Statement.separates c = true)
    (isShort : ∀ word ∈ words, IsShortWord word) :
    Text.words Statement.separates (writeWords gap words) = words := by
  induction words generalizing gap with
  | nil => rfl
  | cons word rest ih =>
    obtain ⟨first, later⟩ := List.forall_mem_cons.mp isShort
    have comma : ∀ c ∈ [',', ' '], Statement.separates c = true :=
      List.all_eq_true.mp (by decide)
    have isWord : Text.IsWord Statement.separates gap word (writeWords [',', ' '] rest) := by
      refine ⟨first.some, fun c member => ?_, fun c last => ?_, fun c opens => ?_⟩
      · exact (isPlain_of_continuesName (first.plain c member)).whole
      · exact parts c (List.mem_of_getLast? last)
      · exact comma c (head?_writeWords (by decide) c opens)
    have empty : Text.words Statement.separates gap = [] := Text.words_append_end parts []
    rw [writeWords, isWord.words_eq, empty, ih (by decide) comma later, List.nil_append]

theorem mem_writeWords {c : Char} (member : c ∈ writeWords gap words) :
    c ∈ gap ∨ c ∈ [',', ' '] ∨ ∃ word ∈ words, c ∈ word := by
  induction words generalizing gap with
  | nil => cases member
  | cons word rest ih =>
    rcases List.mem_append.mp member with front | later
    · rcases List.mem_append.mp front with inside | inside
      · exact .inl inside
      · exact .inr (.inr ⟨word, List.mem_cons_self, inside⟩)
    · rcases ih later with comma | comma | ⟨other, behind, inside⟩
      · exact .inr (.inl comma)
      · exact .inr (.inl comma)
      · exact .inr (.inr ⟨other, List.mem_cons_of_mem _ behind, inside⟩)

theorem length_writeWords_le (isShort : ∀ word ∈ words, IsShortWord word) :
    (writeWords gap words).length ≤ gap.length + 20 * words.length := by
  induction words generalizing gap with
  | nil => exact Nat.zero_le _
  | cons word rest ih =>
    obtain ⟨first, later⟩ := List.forall_mem_cons.mp isShort
    have short := first.short
    have behind : (writeWords [',', ' '] rest).length ≤ 2 + 20 * rest.length := ih later
    simp only [writeWords, List.length_append, List.length_cons]
    omega

end

/-- A byte in binary, with zeros in front up to eight digits. -/
def octet : Numeral.Style := ⟨"", 2, 8, false⟩

theorem octet_base : 1 < octet.base ∧ octet.base ≤ 16 := by decide

example : octet.digits 5 = ['0', '0', '0', '0', '0', '1', '0', '1'] := by decide

/-- What is written for a byte is read as that byte. -/
theorem ofText_octet (value : UInt8) :
    Statement.ofText (Text.trim (octet.digits value.toNat)) = .ok (.byte value) := by
  obtain ⟨some, few⟩ := octet_base
  have digits := Numeral.exists_digit?_digits some few value.toNat
  have read := Numeral.readByte?_digits some few value
  have length : (octet.digits value.toNat).length ≤ 8 := Numeral.length_digits_le some value
  have shown : ∀ c ∈ octet.digits value.toNat, Text.isBlank c = false := by
    intro c member
    obtain ⟨digit, known⟩ := digits c member
    exact (isPlain_of_continuesName (continuesName_of_digit? known)).shown
  have binary : (octet.digits value.toNat).all Statement.isBinaryDigit = true := by
    refine List.all_eq_true.mpr fun c member => ?_
    obtain ⟨digit, known⟩ := digits c member
    exact isBinaryDigit_of_digit? known
  have trimmed : Text.trim (octet.digits value.toNat) = octet.digits value.toNat := by
    rw [Text.trim, Text.trimStart_of_shown, Text.trimEnd_of_shown]
    · exact fun c last => shown c (List.mem_of_getLast? last)
    · exact fun c first => shown c (List.mem_of_head? first)
  rw [trimmed]
  have number : Statement.ofDigits (octet.digits value.toNat) = .ok (.byte value) := by
    have bits : Numeral.readByte? 2 (octet.digits value.toNat) = .some value := read
    simp [Statement.ofDigits, length, binary, bits]
  cases written : octet.digits value.toNat with
  | nil => exact absurd written (Numeral.digits_ne_nil _)
  | cons c rest =>
    obtain ⟨digit, known⟩ := digits c (by simp [written])
    have decimal : c.isDigit = true := isDigit_of_digit? (by decide) known
    rw [Statement.ofText, if_pos decimal, ← written, number]

end LS8.Assembly
