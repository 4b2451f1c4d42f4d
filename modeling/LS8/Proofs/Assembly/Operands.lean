import LS8.Proofs.Assembly.Immediate
import LS8.Proofs.Text.Encoding

/-! What the words of an instruction are read as, and where their bytes fit. Each relation has one
case for each way in which a word can be accepted or refused, and gives every word exactly one
result, the one that is computed. -/
namespace LS8.Assembly

/-- A letter or an underscore, and behind it digits too. -/
def IsName (text : List Char) : Prop :=
  ∃ first rest, text = first :: rest ∧ OpensName first ∧
    ∀ c ∈ rest, OpensName c ∨ ('0' ≤ c ∧ c ≤ '9')

/-- What a text is as the name of a label. A text that is no name is refused for that, however long
it is. -/
inductive IsNamed : List Char → Except Cause Label → Prop
  | name {label : Label} : IsName label.name → (Text.encode label.name).length ≤ nameCapacity →
    IsNamed label.name (.ok label)
  | long {text : List Char} : IsName text → nameCapacity < (Text.encode text).length →
    IsNamed text (.error .labelTooLong)
  | noName {text : List Char} : ¬IsName text → IsNamed text (.error .invalidOperand)

theorem continuesName_iff {c : Char} :
    continuesName c = true ↔ OpensName c ∨ ('0' ≤ c ∧ c ≤ '9') := by
  rw [← startsName_iff]
  simp [continuesName, startsName, Char.isAlphanum, Char.isDigit, Char.le_def, or_right_comm]

theorem isName_iff {text : List Char} : isName text = true ↔ IsName text := by
  cases text with
  | nil => simp [isName, IsName]
  | cons first rest => simp [isName, IsName, startsName_iff, continuesName_iff]

instance : DecidablePred IsName := fun _ => decidable_of_iff _ isName_iff

theorem length_encode_of_isName {text : List Char} (name : isName text = true) :
    (Text.encode text).length = text.length := by
  refine Text.length_encode_of_ascii fun c member => ?_
  have codes := toNat_of_continuesName (continuesName_of_isName name c member)
  omega

theorem isNamed_iff {text : List Char} {result : Except Cause Label} :
    IsNamed text result ↔ result = Label.read text := by
  constructor
  · rintro (⟨-, -⟩ | ⟨name, long⟩ | noName)
    · exact (Label.read_name _).symm
    · have name := isName_iff.mpr name
      rw [length_encode_of_isName name] at long
      rw [Label.read, dif_pos name, dif_neg (Nat.not_le.mpr long)]
    · rw [Label.read, dif_neg (mt isName_iff.mp noName)]
  · rintro rfl
    by_cases name : isName text = true
    · have length := length_encode_of_isName name
      by_cases short : text.length ≤ nameCapacity
      · rw [Label.read, dif_pos name, dif_pos short]
        exact @IsNamed.name ⟨text, name, short⟩ (isName_iff.mp name) (length ▸ short)
      · rw [Label.read, dif_pos name, dif_neg short]
        exact .long (isName_iff.mp name) (length ▸ Nat.not_le.mp short)
    · rw [Label.read, dif_neg name]
      exact .noName (mt isName_iff.mpr name)

/-- A register as it is written. -/
def IsRegister (word : List Char) (index : Nat) : Prop :=
  index < 8 ∧ ∃ letter ∈ ['R', 'r'], word = [letter, Nat.digitChar index]

theorem readRegister_eq_ok_iff {word : List Char} {index : UInt8} :
    readRegister word = .ok index ↔ IsRegister word index.toNat := by
  constructor
  · intro read
    unfold readRegister at read
    split at read
    · split at read
      · rename_i letter digit accepted
        obtain ⟨named, low, high⟩ := accepted
        have low : '0'.toNat ≤ digit.toNat := low
        have high : digit.toNat ≤ '7'.toNat := high
        have codes : '0'.toNat = 48 ∧ '7'.toNat = 55 := by decide
        obtain rfl := Except.ok.inj read
        have value : (UInt8.ofNat (digit.toNat - '0'.toNat)).toNat = digit.toNat - 48 := by
          rw [UInt8.toNat_ofNat_of_lt' (by change _ < 256; omega), codes.1]
        have same : Nat.digitChar (digit.toNat - 48) = digit := by
          apply Char.toNat_inj.mp
          rw [Nat.toNat_digitChar_of_lt_ten (by omega)]
          omega
        rw [value]
        exact ⟨by omega, letter, by simpa using named, by rw [same]⟩
      · contradiction
    · contradiction
  · rintro ⟨inside, letter, named, rfl⟩
    have registers : ∀ n < 8, readRegister ['R', Nat.digitChar n] = .ok (UInt8.ofNat n) ∧
        readRegister ['r', Nat.digitChar n] = .ok (UInt8.ofNat n) := by
      decide
    obtain ⟨capital, small⟩ := registers index.toNat inside
    rw [UInt8.ofNat_toNat] at capital small
    rcases List.mem_pair.mp named with rfl | rfl
    · exact capital
    · exact small

/-- There is one way in which a word can fail to be a register. -/
theorem readRegister_eq_error_iff {word : List Char} {cause : Cause} :
    readRegister word = .error cause ↔
      (∀ index : UInt8, ¬IsRegister word index.toNat) ∧ cause = .invalidOperand := by
  simp only [← readRegister_eq_ok_iff]
  unfold readRegister
  split
  · split <;> simp [eq_comm]
  · simp [eq_comm]

/-- What a word is at the place of an operand. -/
inductive Reads : Shape → List Char → Except Cause Operand → Prop
  | register {word : List Char} {index : UInt8} : IsRegister word index.toNat →
    Reads .register word (.ok (.byte index))
  | noRegister {word : List Char} : (∀ index : UInt8, ¬IsRegister word index.toNat) →
    Reads .register word (.error .invalidOperand)
  | number {word : List Char} {value : UInt8} : word.head?.any Char.isDigit = true →
    Written word value ∨ WrittenWithPlus word value → Reads .immediate word (.ok (.byte value))
  | noNumber {word : List Char} : word.head?.any Char.isDigit = true →
    (∀ value, ¬(Written word value ∨ WrittenWithPlus word value)) →
    Reads .immediate word (.error .invalidOperand)
  | name {word : List Char} {result : Except Cause Label} : word.head?.any Char.isDigit = false →
    IsNamed word result → Reads .immediate word (result.map .label)

theorem reads_iff {shape : Shape} {word : List Char} {result : Except Cause Operand} :
    Reads shape word result ↔ result = shape.read word := by
  constructor
  · rintro (register | noRegister | ⟨opens, written⟩ | ⟨opens, unwritten⟩ | ⟨opens, named⟩)
    · rw [Shape.read, readRegister_eq_ok_iff.mpr register]
      rfl
    · rw [Shape.read, readRegister_eq_error_iff.mpr ⟨noRegister, rfl⟩]
      rfl
    · rw [Shape.read, readImmediate, if_pos opens, (readNumber?_eq_some_iff opens).mpr written]
    · have unread : readNumber? word = none := Option.eq_none_iff_forall_ne_some.mpr
        fun value read => unwritten value ((readNumber?_eq_some_iff opens).mp read)
      rw [Shape.read, readImmediate, if_pos opens, unread]
    · rw [Shape.read, readImmediate, if_neg (Bool.eq_false_iff.mp opens), isNamed_iff.mp named]
  · rintro rfl
    cases shape with
    | register =>
      cases read : readRegister word with
      | ok index =>
        rw [Shape.read, read]
        exact .register (readRegister_eq_ok_iff.mp read)
      | error cause =>
        obtain ⟨noRegister, rfl⟩ := readRegister_eq_error_iff.mp read
        rw [Shape.read, read]
        exact .noRegister noRegister
    | immediate =>
      rw [Shape.read, readImmediate]
      by_cases opens : word.head?.any Char.isDigit = true
      · rw [if_pos opens]
        cases read : readNumber? word with
        | some value => exact .number opens ((readNumber?_eq_some_iff opens).mp read)
        | none =>
          refine .noNumber opens fun value written => ?_
          rw [(readNumber?_eq_some_iff opens).mpr written] at read
          contradiction
      · rw [if_neg opens]
        exact .name (Bool.eq_false_iff.mpr opens) (isNamed_iff.mpr rfl)

/-- The bytes of some words from an address on. Each word has to be readable before it is asked
whether there is room for its byte, and both before the next word is looked at. -/
inductive PlacedAs : Nat → List (Shape × List Char) → Except Cause (List Operand) → Prop
  | none {address : Nat} : PlacedAs address [] (.ok [])
  | unread {address : Nat} {shape : Shape} {word : List Char} {rest : List (Shape × List Char)}
    {cause : Cause} : Reads shape word (.error cause) →
    PlacedAs address ((shape, word) :: rest) (.error cause)
  | full {address : Nat} {shape : Shape} {word : List Char} {rest : List (Shape × List Char)}
    {operand : Operand} : Reads shape word (.ok operand) → programCapacity ≤ address →
    PlacedAs address ((shape, word) :: rest) (.error .programTooLarge)
  | next {address : Nat} {shape : Shape} {word : List Char} {rest : List (Shape × List Char)}
    {operand : Operand} {result : Except Cause (List Operand)} : Reads shape word (.ok operand) →
    address < programCapacity → PlacedAs (address + 1) rest result →
    PlacedAs address ((shape, word) :: rest) (result.map (operand :: ·))

theorem placedAs_iff {address : Nat} {places : List (Shape × List Char)}
    {result : Except Cause (List Operand)} :
    PlacedAs address places result ↔
      result = fit address (places.map fun place => place.1.read place.2) := by
  constructor
  · intro placed
    induction placed with
    | none => rfl
    | unread refused => rw [List.map_cons, ← reads_iff.mp refused, fit]
    | full read full =>
      rw [List.map_cons, ← reads_iff.mp read, fit, if_neg (Nat.not_lt.mpr full)]
    | next read room later ih =>
      rw [List.map_cons, ← reads_iff.mp read, fit, if_pos room, ih]
  · rintro rfl
    induction places generalizing address with
    | nil => exact .none
    | cons place rest ih =>
      obtain ⟨shape, word⟩ := place
      rw [List.map_cons]
      cases read : shape.read word with
      | error cause => exact .unread (reads_iff.mpr read.symm)
      | ok operand =>
        have reads : Reads shape word (.ok operand) := reads_iff.mpr read.symm
        rw [fit]
        by_cases room : address < programCapacity
        · rw [if_pos room]
          exact .next reads room ih
        · rw [if_neg room]
          exact .full reads (Nat.not_lt.mp room)

end LS8.Assembly
