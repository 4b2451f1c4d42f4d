import LS8.Proofs.Text.Words

/-! Margins. What a text is without its margins is the part of it between blanks that neither begins
nor ends with a blank. There is one such part, and trimming gives it. -/
namespace LS8.Text

/-- A text but for blanks at its end. -/
structure IsTrimmedEnd (text trimmed : List Char) : Prop where
  margin : ∃ back, (∀ c ∈ back, isBlank c = true) ∧ text = trimmed ++ back
  closes : ∀ c ∈ trimmed.getLast?, isBlank c = false

/-- A text but for blanks at both ends. -/
structure IsTrimmed (text trimmed : List Char) : Prop where
  margins : ∃ front back, (∀ c ∈ front, isBlank c = true) ∧ (∀ c ∈ back, isBlank c = true) ∧
    text = front ++ trimmed ++ back
  opens : ∀ c ∈ trimmed.head?, isBlank c = false
  closes : ∀ c ∈ trimmed.getLast?, isBlank c = false

variable {text trimmed : List Char}

theorem shown_of_mem_visible {c : Char} (member : c ∈ visible text) : isBlank c = false := by
  simpa using (List.mem_filter.mp member).2

theorem isTrimmedEnd_iff : IsTrimmedEnd text trimmed ↔ trimmed = trimEnd text := by
  constructor
  · rintro ⟨⟨back, blank, rfl⟩, closes⟩
    rw [trimEnd_append_blanks blank, trimEnd_of_shown closes]
  · rintro rfl
    refine ⟨exists_trimEnd text, fun c last => ?_⟩
    rw [getLast?_trimEnd] at last
    exact shown_of_mem_visible (List.mem_of_getLast? last)

theorem isTrimmed_iff : IsTrimmed text trimmed ↔ trimmed = trim text := by
  constructor
  · rintro ⟨⟨front, back, before, after, rfl⟩, opens, closes⟩
    rw [trim_margins before after, trim, trimStart_of_shown opens, trimEnd_of_shown closes]
  · rintro rfl
    obtain ⟨front, before, start⟩ := exists_trimStart text
    obtain ⟨back, after, ends⟩ := exists_trimEnd (trimStart text)
    refine ⟨⟨front, back, before, after, ?_⟩, fun c first => ?_, fun c last => ?_⟩
    · rw [trim, List.append_assoc, ← ends, ← start]
    · rw [head?_trim] at first
      exact shown_of_mem_visible (List.mem_of_head? first)
    · rw [getLast?_trim] at last
      exact shown_of_mem_visible (List.mem_of_getLast? last)

/-- A text goes on without a blank up to the first one. -/
theorem exists_shown_append (text : List Char) : ∃ front back, text = front ++ back ∧
    (∀ c ∈ front, isBlank c = false) ∧ ∀ c ∈ back.head?, isBlank c = true := by
  refine ⟨_, _, (List.takeWhile_append_dropWhile (p := fun c => !isBlank c)).symm, ?_, ?_⟩
  · intro c member
    simpa using List.mem_takeWhile_imp member
  · intro c first
    simpa using eq_false_of_mem_head?_dropWhile first

end LS8.Text
