import Mathlib.Data.List.TakeWhile
import LS8.Text.Blank

/-! Words and margins. Words stay apart as long as one separator is between them, whatever else
is there, and a text with other margins is the same text once it is trimmed. -/
namespace LS8.Text

/-- What is left begins with what was not to be dropped. -/
theorem eq_false_of_mem_head?_dropWhile {α : Type} {p : α → Bool} {list : List α} {each : α}
    (first : each ∈ (list.dropWhile p).head?) : p each = false := by
  have stopped := List.head?_dropWhile_not p list
  simpa [Option.mem_def.mp first] using stopped

section
variable {separates : Char → Bool}

theorem pieces_eq_splitOnP (text : List Char) :
    pieces separates text = text.splitOnP separates := by
  induction text with
  | nil => simp [pieces]
  | cons c rest ih =>
    rw [pieces, List.splitOnP_cons_eq_if_modifyHead, ih]
    cases pieces : rest.splitOnP separates with
    | nil => exact absurd pieces (List.splitOnP_ne_nil separates rest)
    | cons piece others => rfl

@[simp] theorem words_nil : words separates [] = [] := rfl

/-- A separator parts the words in front of it from those behind it. -/
theorem words_append_cons {c : Char} (h : separates c = true) (front back : List Char) :
    words separates (front ++ c :: back) = words separates front ++ words separates back := by
  simp only [words, pieces_eq_splitOnP, List.splitOnP_append_cons front back h, List.filter_append]

/-- More separators do nothing. -/
theorem words_gap_append {gap : List Char} (parts : ∀ c ∈ gap, separates c = true)
    (back : List Char) : words separates (gap ++ back) = words separates back := by
  induction gap with
  | nil => rfl
  | cons c gap ih =>
    obtain ⟨first, later⟩ := List.forall_mem_cons.mp parts
    rw [List.cons_append, words_separator first, ih later]

/-- Words on both sides of a gap stay apart. -/
theorem words_append_gap {gap : List Char} (parts : ∀ c ∈ gap, separates c = true)
    (wide : gap ≠ []) (front back : List Char) :
    words separates (front ++ gap ++ back) = words separates front ++ words separates back := by
  obtain ⟨c, gap, rfl⟩ := List.exists_cons_of_ne_nil wide
  obtain ⟨first, later⟩ := List.forall_mem_cons.mp parts
  rw [List.append_assoc, List.cons_append, words_append_cons first, words_gap_append later]

theorem words_append_end {gap : List Char} (parts : ∀ c ∈ gap, separates c = true)
    (front : List Char) : words separates (front ++ gap) = words separates front := by
  rcases gap with _ | ⟨c, gap⟩
  · rw [List.append_nil]
  · have split := words_append_gap parts (List.cons_ne_nil c gap) front []
    simpa using split

/-- A text that ends in a separator keeps its words whatever comes next. -/
theorem words_append_of_ended {front : List Char}
    (ended : ∀ c ∈ front.getLast?, separates c = true) (back : List Char) :
    words separates (front ++ back) = words separates front ++ words separates back := by
  rcases List.eq_nil_or_concat front with rfl | ⟨init, c, rfl⟩
  · rfl
  · have parts : separates c = true := ended c (by simp)
    rw [List.concat_eq_append, List.append_assoc, List.singleton_append, words_append_cons parts,
      words_append_cons parts, words_nil, List.append_nil]

theorem words_eq_singleton {word : List Char} (whole : ∀ c ∈ word, separates c = false)
    (some : word ≠ []) : words separates word = [word] := by
  simp [words, pieces_eq_singleton whole, some]

/-- A word goes on up to the next separator. -/
theorem words_letter {c : Char} (letter : separates c = false) (rest : List Char) :
    words separates (c :: rest) = (c :: rest.takeWhile fun d => !separates d) ::
      words separates (rest.dropWhile fun d => !separates d) := by
  have whole : ∀ d ∈ c :: rest.takeWhile fun d => !separates d, separates d = false := by
    intro d member
    rcases List.mem_cons.mp member with rfl | later
    · exact letter
    · simpa using List.mem_takeWhile_imp later
  have word := words_eq_singleton whole (List.cons_ne_nil _ _)
  have cut : c :: rest = (c :: rest.takeWhile fun d => !separates d) ++
      rest.dropWhile fun d => !separates d := by
    rw [List.cons_append, List.takeWhile_append_dropWhile]
  cases behind : rest.dropWhile fun d => !separates d with
  | nil =>
    rw [behind, List.append_nil] at cut
    rw [words_nil, cut, word]
  | cons d back =>
    have first : d ∈ (rest.dropWhile fun d => !separates d).head? := by
      rw [behind]
      rfl
    have parts : separates d = true := by
      simpa using eq_false_of_mem_head?_dropWhile first
    rw [cut, behind, words_append_cons parts, word, words_separator parts]
    simp

end

/-- What there is to see of a text. -/
def visible (text : List Char) : List Char := text.filter fun c => !isBlank c

theorem visible_append (front back : List Char) :
    visible (front ++ back) = visible front ++ visible back :=
  List.filter_append front back

theorem visible_eq_nil_iff {text : List Char} :
    visible text = [] ↔ ∀ c ∈ text, isBlank c = true := by
  simp [visible]

theorem visible_cons {c : Char} (shown : isBlank c = false) (rest : List Char) :
    visible (c :: rest) = c :: visible rest :=
  List.filter_cons_of_pos (by simp [shown])

theorem visible_of_shown {text : List Char} (shown : ∀ c ∈ text, isBlank c = false) :
    visible text = text := by
  simpa [visible] using shown

theorem trimStart_blanks_append {front : List Char} (blank : ∀ c ∈ front, isBlank c = true)
    (text : List Char) : trimStart (front ++ text) = trimStart text :=
  List.dropWhile_append_of_pos blank

theorem exists_trimStart (text : List Char) :
    ∃ front, (∀ c ∈ front, isBlank c = true) ∧ text = front ++ trimStart text :=
  ⟨text.takeWhile isBlank, fun _ => List.mem_takeWhile_imp, List.takeWhile_append_dropWhile.symm⟩

/-- Behind the first character that can be seen, trimming changes nothing at the start. -/
theorem trimStart_append {text : List Char} (seen : visible text ≠ []) (back : List Char) :
    trimStart (text ++ back) = trimStart text ++ back := by
  rw [trimStart, List.dropWhile_append]
  split
  · rename_i empty
    refine absurd (visible_eq_nil_iff.mpr ?_) seen
    exact List.dropWhile_eq_nil_iff.mp (List.isEmpty_iff.mp empty)
  · rfl

theorem trimEnd_eq (text : List Char) : trimEnd text = (trimStart text.reverse).reverse := rfl

theorem exists_trimEnd (text : List Char) :
    ∃ back, (∀ c ∈ back, isBlank c = true) ∧ text = trimEnd text ++ back := by
  obtain ⟨front, blank, split⟩ := exists_trimStart text.reverse
  refine ⟨front.reverse, fun c member => blank c (List.mem_reverse.mp member), ?_⟩
  rw [trimEnd_eq, ← List.reverse_append, ← split, List.reverse_reverse]

theorem trimEnd_append_blanks {back : List Char} (blank : ∀ c ∈ back, isBlank c = true)
    (text : List Char) : trimEnd (text ++ back) = trimEnd text := by
  rw [trimEnd_eq, List.reverse_append, trimStart_blanks_append, trimEnd_eq]
  exact fun c member => blank c (List.mem_reverse.mp member)

theorem trimEnd_cons {c : Char} (shown : isBlank c = false) (rest : List Char) :
    trimEnd (c :: rest) = c :: trimEnd rest := by
  rw [trimEnd_eq, trimEnd_eq, List.reverse_cons]
  by_cases seen : visible rest.reverse = []
  · rw [trimStart_blanks_append (visible_eq_nil_iff.mp seen)]
    have empty : trimStart rest.reverse = [] :=
      List.dropWhile_eq_nil_iff.mpr (visible_eq_nil_iff.mp seen)
    rw [empty]
    simp [trimStart, shown]
  · rw [trimStart_append seen, List.reverse_append]
    rfl

theorem trimStart_of_shown {text : List Char} (shown : ∀ c ∈ text.head?, isBlank c = false) :
    trimStart text = text := by
  rcases text with _ | ⟨c, rest⟩
  · rfl
  · have opens : isBlank c = false := shown c rfl
    simp [trimStart, opens]

theorem trimEnd_of_shown {text : List Char} (shown : ∀ c ∈ text.getLast?, isBlank c = false) :
    trimEnd text = text := by
  rw [trimEnd_eq, trimStart_of_shown, List.reverse_reverse]
  rw [List.head?_reverse]
  exact shown

/-- A text is cut at its first blank in one way. -/
theorem takeWhile_dropWhile_shown {front back : List Char}
    (whole : ∀ c ∈ front, isBlank c = false) (stops : ∀ c ∈ back.head?, isBlank c = true) :
    ((front ++ back).takeWhile fun c => !isBlank c) = front ∧
      ((front ++ back).dropWhile fun c => !isBlank c) = back := by
  have shown : ∀ c ∈ front, (!isBlank c) = true := fun c member => by simp [whole c member]
  rw [List.takeWhile_append_of_pos shown, List.dropWhile_append_of_pos shown]
  cases back with
  | nil => simp
  | cons c back => simp [stops c rfl]

/-- Trimming leaves the same text whatever its margins are. -/
theorem trim_margins {front back : List Char} (before : ∀ c ∈ front, isBlank c = true)
    (after : ∀ c ∈ back, isBlank c = true) (text : List Char) :
    trim (front ++ text ++ back) = trim text := by
  rw [List.append_assoc, trim, trimStart_blanks_append before, trim]
  by_cases seen : visible text = []
  · have blank := visible_eq_nil_iff.mp seen
    rw [trimStart_blanks_append blank]
    have empty {text : List Char} (blank : ∀ c ∈ text, isBlank c = true) : trimStart text = [] :=
      List.dropWhile_eq_nil_iff.mpr blank
    rw [empty after, empty blank]
  · rw [trimStart_append seen, trimEnd_append_blanks after]

theorem visible_trimStart (text : List Char) : visible (trimStart text) = visible text := by
  obtain ⟨front, blank, split⟩ := exists_trimStart text
  have parts := congrArg visible split
  rw [visible_append, visible_eq_nil_iff.mpr blank, List.nil_append] at parts
  exact parts.symm

theorem head?_trimStart (text : List Char) : (trimStart text).head? = (visible text).head? := by
  rw [visible, List.head?_filter]
  induction text with
  | nil => rfl
  | cons c rest ih =>
    cases blank : isBlank c
    · simp [trimStart, blank]
    · rw [trimStart_blank blank, ih]
      simp [blank]

theorem getLast?_trimEnd (text : List Char) :
    (trimEnd text).getLast? = (visible text).getLast? := by
  rw [trimEnd_eq, List.getLast?_reverse, head?_trimStart, visible, List.filter_reverse,
    List.head?_reverse, visible]

theorem head?_trim (text : List Char) : (trim text).head? = (visible text).head? := by
  rw [trim, ← head?_trimStart text]
  cases shown : trimStart text with
  | nil => rfl
  | cons c rest =>
    have first : c ∈ (trimStart text).head? := by
      rw [shown]
      rfl
    rw [trimEnd_cons (eq_false_of_mem_head?_dropWhile first)]
    rfl

theorem getLast?_trim (text : List Char) : (trim text).getLast? = (visible text).getLast? := by
  rw [trim, getLast?_trimEnd, visible_trimStart]

end LS8.Text
