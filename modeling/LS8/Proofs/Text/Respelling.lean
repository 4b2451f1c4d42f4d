import LS8.Proofs.Text.Words

/-! Changes to one word of a text. Only the word is another one; the other words, and what is
between them, stay. -/
namespace LS8.Text

/-- A word with what is in front of it and behind it. -/
structure IsWord (separates : Char → Bool) (front word back : List Char) : Prop where
  some : word ≠ []
  whole : ∀ c ∈ word, separates c = false
  opened : ∀ c ∈ front.getLast?, separates c = true
  closed : ∀ c ∈ back.head?, separates c = true

/-- The first word of a text, between the gap in front of it and the rest. -/
def firstWord? (separates : Char → Bool) (text : List Char) :
    Option (List Char × List Char × List Char) :=
  let body := text.dropWhile separates
  if body = [] then none
  else some (text.takeWhile separates, body.takeWhile fun c => !separates c,
    body.dropWhile fun c => !separates c)

/-- Changes the word at an index. A text without that word stays as it is. -/
def mapWord (separates : Char → Bool) (change : List Char → List Char) :
    Nat → List Char → List Char
  | index, text =>
    match firstWord? separates text with
    | none => text
    | some (gap, word, rest) =>
      match index with
      | 0 => gap ++ change word ++ rest
      | index + 1 => gap ++ word ++ mapWord separates change index rest

section
variable {separates : Char → Bool}

theorem IsWord.words_eq {front word back : List Char} (isWord : IsWord separates front word back) :
    words separates (front ++ word ++ back) =
      words separates front ++ word :: words separates back := by
  have single := words_eq_singleton isWord.whole isWord.some
  rw [List.append_assoc, words_append_of_ended isWord.opened]
  congr 1
  rcases back with _ | ⟨c, back⟩
  · rw [List.append_nil, single, words_nil]
  · have parts : separates c = true := isWord.closed c rfl
    rw [words_append_cons parts, single, words_separator parts]
    rfl

/-- Behind a word another one does not begin at once. -/
theorem IsWord.trans {gap word front other back : List Char}
    (first : IsWord separates gap word (front ++ other ++ back))
    (second : IsWord separates front other back) :
    IsWord separates (gap ++ word ++ front) other back ∧ IsWord separates gap word front := by
  obtain ⟨c, tail, rfl⟩ := List.exists_cons_of_ne_nil second.some
  rcases front with _ | ⟨d, front⟩
  · have apart : separates c = true := first.closed c rfl
    have letter := second.whole c List.mem_cons_self
    rw [apart] at letter
    contradiction
  · refine ⟨⟨second.some, second.whole, ?_, second.closed⟩,
      first.some, first.whole, first.opened, first.closed⟩
    intro e last
    rw [List.getLast?_append, List.getLast?_cons, Option.some_or, ← List.getLast?_cons] at last
    exact second.opened e last

theorem words_of_firstWord?_eq_none {text : List Char} (found : firstWord? separates text = none) :
    words separates text = [] := by
  have empty : text.dropWhile separates = [] := by simpa [firstWord?] using found
  exact words_append_end (List.dropWhile_eq_nil_iff.mp empty) []

theorem firstWord?_eq_some {text gap word rest : List Char}
    (found : firstWord? separates text = some (gap, word, rest)) :
    text = gap ++ word ++ rest ∧ words separates gap = [] ∧ IsWord separates gap word rest := by
  have parts : ∀ c ∈ text.takeWhile separates, separates c = true :=
    fun c => List.mem_takeWhile_imp
  simp only [firstWord?] at found
  split at found
  · contradiction
  · rename_i some
    cases found
    refine ⟨?_, words_append_end parts [], ?_, ?_, ?_, ?_⟩
    · rw [List.append_assoc, List.takeWhile_append_dropWhile, List.takeWhile_append_dropWhile]
    · obtain ⟨c, body, shown⟩ := List.exists_cons_of_ne_nil some
      have stopped := List.head?_dropWhile_not separates text
      simp_all
    · intro c member
      simpa using List.mem_takeWhile_imp member
    · exact fun c last => parts c (List.mem_of_getLast? last)
    · intro c first
      simpa using eq_false_of_mem_head?_dropWhile first

/-- The word is the only thing that is changed, where it is there at all. -/
theorem mapWord_cases (separates : Char → Bool) (change : List Char → List Char) (index : Nat)
    (text : List Char) :
    (mapWord separates change index text = text ∧ (words separates text).length ≤ index) ∨
    ∃ front word back, text = front ++ word ++ back ∧
      mapWord separates change index text = front ++ change word ++ back ∧
      (words separates front).length = index ∧ IsWord separates front word back := by
  induction index generalizing text with
  | zero =>
    rw [mapWord]
    cases found : firstWord? separates text with
    | none => exact .inl ⟨rfl, (congrArg List.length (words_of_firstWord?_eq_none found)).le⟩
    | some cut =>
      obtain ⟨split, empty, first⟩ := firstWord?_eq_some found
      exact .inr ⟨_, _, _, split, rfl, congrArg List.length empty, first⟩
  | succ index ih =>
    rw [mapWord]
    cases found : firstWord? separates text with
    | none =>
      have none := congrArg List.length (words_of_firstWord?_eq_none found)
      exact .inl ⟨rfl, none.le.trans (Nat.zero_le _)⟩
    | some cut =>
      obtain ⟨gap, word, rest⟩ := cut
      obtain ⟨split, empty, first⟩ := firstWord?_eq_some found
      dsimp only
      rcases ih rest with ⟨same, few⟩ | ⟨front, other, back, later, changed, counted, second⟩
      · refine .inl ⟨by rw [same, split], ?_⟩
        rw [split, first.words_eq, empty]
        exact Nat.succ_le_succ few
      · rw [later] at first
        obtain ⟨joined, first⟩ := first.trans second
        refine .inr ⟨gap ++ word ++ front, other, back, ?_, ?_, ?_, joined⟩
        · simp only [split, later, List.append_assoc]
        · simp only [changed, List.append_assoc]
        · rw [first.words_eq, empty]
          exact congrArg Nat.succ counted

/-- In front of the second word nothing is changed. -/
theorem head?_mapWord (change : List Char → List Char) (index : Nat) (text : List Char) :
    (mapWord separates change (index + 1) text).head? = text.head? := by
  rw [mapWord]
  cases found : firstWord? separates text with
  | none => rfl
  | some cut =>
    obtain ⟨gap, word, rest⟩ := cut
    obtain ⟨split, -, first⟩ := firstWord?_eq_some found
    obtain ⟨c, tail, rfl⟩ := List.exists_cons_of_ne_nil first.some
    rw [split]
    simp

variable {change : List Char → List Char}

/-- Where words are changed to words, the words are those of the text but for the changed one. -/
theorem words_mapWord (proper : ∀ word, word ≠ [] → (∀ c ∈ word, separates c = false) →
      change word ≠ [] ∧ ∀ c ∈ change word, separates c = false) (index : Nat) (text : List Char) :
    words separates (mapWord separates change index text) =
      (words separates text).modify index change := by
  rcases mapWord_cases separates change index text with
    ⟨same, few⟩ | ⟨front, word, back, rfl, changed, rfl, isWord⟩
  · rw [same, List.modify_eq_self few]
  · obtain ⟨some, whole⟩ := proper word isWord.some isWord.whole
    have changedWord : IsWord separates front (change word) back :=
      ⟨some, whole, isWord.opened, isWord.closed⟩
    rw [changed, changedWord.words_eq, isWord.words_eq]
    exact (List.modifyTailIdx_add (List.modifyHead change) 0 (words separates front)
      (word :: words separates back)).symm

end

end LS8.Text
