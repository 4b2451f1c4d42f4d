import LS8.Proofs.Assembly.Phrase
import LS8.Proofs.Text.Encoding
import LS8.Proofs.Text.Words

/-! Wording of lines. An instruction is read from its mnemonic and its words alone: what is at the
ends of the line and between the words has no part in it. -/
namespace LS8.Assembly

/-- What a line may hold that is not read: nothing, or a comment. -/
structure IsComment (bytes : List UInt8) : Prop where
  marked : ∀ byte ∈ bytes.head?, byte = commentSign
  inLine : newline ∉ bytes

theorem isComment_nil : IsComment [] := ⟨by simp, List.not_mem_nil⟩

theorem isComment_cons {rest : List UInt8} (inLine : newline ∉ rest) :
    IsComment (commentSign :: rest) :=
  ⟨by simp, List.not_mem_cons_of_ne_of_not_mem (by decide) inLine⟩

theorem takeWhile_append_comment {kept comment : List UInt8} (unmarked : commentSign ∉ kept)
    (marked : ∀ byte ∈ comment.head?, byte = commentSign) :
    (kept ++ comment).takeWhile (· != commentSign) = kept := by
  have whole : ∀ byte ∈ kept, (byte != commentSign) = true := by
    intro byte member
    have distinct : byte ≠ commentSign := fun same => unmarked (same ▸ member)
    simp [distinct]
  rw [List.takeWhile_append_of_pos whole]
  cases comment with
  | nil => simp
  | cons byte rest => simp [marked byte rfl]

theorem commentSign_mem_encode_iff {text : List Char} :
    commentSign ∈ Text.encode text ↔ '#' ∈ text :=
  Text.mem_encode_iff (c := '#') (by decide)

theorem newline_mem_encode_iff {text : List Char} : newline ∈ Text.encode text ↔ '\n' ∈ text :=
  Text.mem_encode_iff (c := '\n') (by decide)

theorem read_encode (text : List Char) :
    Statement.read (Text.encode text) = Statement.ofText (Text.trim text) := by
  rw [Statement.read, Text.decode?_encode]

/-- Whether a text is an instruction shows at its ends. -/
def IsInstruction (text : List Char) : Prop :=
  (Text.visible text).head?.any startsName = true ∧ (Text.visible text).getLast? ≠ some ':'

namespace Phrase

/-- The phrase in a text that may have margins. -/
def inText (text : List Char) : Phrase :=
  ⟨(Text.trimStart text).takeWhile fun c => !Text.isBlank c,
    Text.words Statement.separates ((Text.trimStart text).dropWhile fun c => !Text.isBlank c)⟩

end Phrase

theorem separates_of_isBlank {c : Char} (blank : Text.isBlank c = true) :
    Statement.separates c = true := by
  simp [Statement.separates, blank]

/-- Blanks behind a text are no part of its mnemonic, and no words. -/
theorem inText_eq (text : List Char) : Phrase.inText text =
    ⟨(Text.trim text).takeWhile fun c => !Text.isBlank c,
      Text.words Statement.separates ((Text.trim text).dropWhile fun c => !Text.isBlank c)⟩ := by
  obtain ⟨back, blank, split⟩ := Text.exists_trimEnd (Text.trimStart text)
  have parts : ∀ c ∈ back, Statement.separates c = true :=
    fun c member => separates_of_isBlank (blank c member)
  have hidden : (back.takeWhile fun c => !Text.isBlank c) = [] := by
    simpa [List.takeWhile_eq_nil_iff] using fun inside => blank _ (List.getElem_mem inside)
  have kept : (back.dropWhile fun c => !Text.isBlank c) = back := by
    simpa [List.dropWhile_eq_self_iff] using fun inside => blank _ (List.getElem_mem inside)
  rw [Phrase.inText, split, ← Text.trim, List.takeWhile_append, List.dropWhile_append, hidden, kept,
    List.append_nil]
  congr 1
  · split
    · rename_i whole
      exact ((List.takeWhile_prefix _).eq_of_length whole).symm
    · rfl
  · split
    · rename_i empty
      rw [List.isEmpty_iff.mp empty]
      exact Text.words_append_end parts []
    · exact Text.words_append_end parts _

/-- A text is its indent, its mnemonic and what comes behind. -/
theorem parts_inText (text : List Char) :
    let indent := text.takeWhile Text.isBlank
    let mnemonic := (Text.trimStart text).takeWhile fun c => !Text.isBlank c
    let rest := (Text.trimStart text).dropWhile fun c => !Text.isBlank c
    text = indent ++ mnemonic ++ rest ∧ (∀ c ∈ indent, Text.isBlank c = true) ∧
      (∀ c ∈ mnemonic, Text.isBlank c = false) ∧ ∀ c ∈ rest.head?, Text.isBlank c = true := by
  refine ⟨?_, fun c => List.mem_takeWhile_imp, ?_, ?_⟩
  · rw [List.append_assoc, List.takeWhile_append_dropWhile]
    exact List.takeWhile_append_dropWhile.symm
  · intro c member
    simpa using List.mem_takeWhile_imp member
  · intro c first
    simpa using Text.eq_false_of_mem_head?_dropWhile first

/-- A mnemonic between blanks, and the words behind it. -/
theorem inText_of_parts {indent word rest : List Char} (blank : ∀ c ∈ indent, Text.isBlank c = true)
    (whole : ∀ c ∈ word, Text.isBlank c = false) (some : word ≠ [])
    (stops : ∀ c ∈ rest.head?, Text.isBlank c = true) :
    Phrase.inText (indent ++ word ++ rest) = ⟨word, Text.words Statement.separates rest⟩ := by
  have start : Text.trimStart (word ++ rest) = word ++ rest := by
    refine Text.trimStart_of_shown fun c first => ?_
    rw [List.head?_append_of_ne_nil _ some] at first
    exact whole c (List.mem_of_head? first)
  obtain ⟨front, back⟩ := Text.takeWhile_dropWhile_shown whole stops
  rw [Phrase.inText, List.append_assoc, Text.trimStart_blanks_append blank, start, front, back]

theorem ofText_of_isInstruction {text : List Char} (instruction : IsInstruction text) :
    Statement.ofText (Text.trim text) = (Phrase.inText text).statement := by
  obtain ⟨opens, closes⟩ := instruction
  rw [← Text.head?_trim] at opens
  rw [← Text.getLast?_trim] at closes
  rw [inText_eq]
  cases shown : Text.trim text with
  | nil => simp [shown] at opens
  | cons first rest =>
    rw [shown] at opens closes
    have starts : startsName first = true := opens
    simp only [Statement.ofText, isDigit_of_startsName starts, starts, closes]
    exact ofInstruction_eq _

end LS8.Assembly
