/-! Blank space: the characters that separate words and are trimmed from the ends
of a line, and the cutting of text at separators. The characters are those with
the White_Space property, twenty-five in all, and not only the ASCII ones. -/
namespace LS8.Text

/-- First and last code point of each run of White_Space characters. -/
def blankRanges : List (Nat × Nat) := [
  (0x09, 0x0d), (0x20, 0x20), (0x85, 0x85), (0xa0, 0xa0), (0x1680, 0x1680),
  (0x2000, 0x200a), (0x2028, 0x2029), (0x202f, 0x202f), (0x205f, 0x205f), (0x3000, 0x3000)]

def isBlank (c : Char) : Bool :=
  blankRanges.any fun range => range.1 ≤ c.toNat && c.toNat ≤ range.2

example : (blankRanges.map fun range => range.2 + 1 - range.1).sum = 25 := by decide

/-- Every character that ASCII calls blank is blank here. -/
theorem isBlank_of_isWhitespace {c : Char} (h : c.isWhitespace = true) : isBlank c = true := by
  simp only [Char.isWhitespace, Bool.or_eq_true, decide_eq_true_eq] at h
  rcases h with ((rfl | rfl) | rfl) | rfl <;> decide

def trimStart (text : List Char) : List Char := text.dropWhile isBlank

def trimEnd (text : List Char) : List Char := (text.reverse.dropWhile isBlank).reverse

def trim (text : List Char) : List Char := trimEnd (trimStart text)

@[simp] theorem trimStart_nil : trimStart [] = [] := rfl

@[simp] theorem trimEnd_nil : trimEnd [] = [] := rfl

@[simp] theorem trimStart_blank {c : Char} (h : isBlank c = true) (rest : List Char) :
    trimStart (c :: rest) = trimStart rest := by
  simp [trimStart, h]

@[simp] theorem trimEnd_blank {c : Char} (h : isBlank c = true) (front : List Char) :
    trimEnd (front ++ [c]) = trimEnd front := by
  simp [trimEnd, h]

/-- Cuts at every separator, so that there is one piece more than separators. -/
def pieces (separates : Char → Bool) : List Char → List (List Char)
  | [] => [[]]
  | c :: rest =>
    if separates c then [] :: pieces separates rest
    else match pieces separates rest with
      | [] => [[c]]
      | piece :: others => (c :: piece) :: others

/-- The non-empty pieces. -/
def words (separates : Char → Bool) (text : List Char) : List (List Char) :=
  (pieces separates text).filter fun piece => !piece.isEmpty

theorem pieces_eq_singleton {separates : Char → Bool} {text : List Char}
    (whole : ∀ c ∈ text, separates c = false) : pieces separates text = [text] := by
  induction text with
  | nil => rfl
  | cons c rest ih =>
    have pieces_rest := ih fun other member => whole other (List.mem_cons_of_mem c member)
    simp [pieces, pieces_rest, whole c List.mem_cons_self]

/-- A separator at the front adds an empty piece, which is no word. -/
@[simp] theorem words_separator {separates : Char → Bool} {c : Char} (h : separates c = true)
    (rest : List Char) : words separates (c :: rest) = words separates rest := by
  simp [words, pieces, h]

end LS8.Text
