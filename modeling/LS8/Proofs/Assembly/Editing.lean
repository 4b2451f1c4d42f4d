import Mathlib.Data.Bool.AllAny
import LS8.Proofs.Assembly.Relabelling
import LS8.Proofs.Assembly.Rewording

/-! Edits that do not matter. Comments, blanks at the ends of a line, lines that hold nothing else,
and the spelling of an instruction can be edited in any way and any number of times: the same
program comes out, and the same is noted. If the source is refused, it is for the same cause and
on the same line, which may have another number by then. -/
namespace LS8.Assembly

/-- Blanks that do not end their line. -/
structure IsMargin (margin : List Char) : Prop where
  blank : ∀ c ∈ margin, Text.isBlank c = true
  inLine : '\n' ∉ margin

/-- One change to a line. Either of two margins or comments may be empty. -/
inductive Reworded : List UInt8 → List UInt8 → Prop
  /-- Another comment, or none where there was one. -/
  | comment {kept comment other : List UInt8} : commentSign ∉ kept → IsComment comment →
    IsComment other → Reworded (kept ++ comment) (kept ++ other)
  /-- Other blanks in front of and behind what is read, which need not be text. -/
  | margins {kept comment : List UInt8} {front back front' back' : List Char} :
    commentSign ∉ kept → IsComment comment → IsMargin front → IsMargin back →
    IsMargin front' → IsMargin back' →
    Reworded (Text.encode front ++ kept ++ Text.encode back ++ comment)
      (Text.encode front' ++ kept ++ Text.encode back' ++ comment)
  /-- Another spelling of an instruction. -/
  | spelling {text other : List Char} {comment : List UInt8} : '#' ∉ text → IsComment comment →
    Respelled text other → Reworded (Text.encode text ++ comment) (Text.encode other ++ comment)

/-- A line of nothing but blanks and a comment. -/
def IsIdle (line : List UInt8) : Prop :=
  ∃ margin comment, IsMargin margin ∧ IsComment comment ∧ line = Text.encode margin ++ comment

/-- One edit of the lines of a source, and the numbers that it gives to them. To end the last line
with a newline is to insert an empty line behind it. -/
inductive Edit : (Nat → Nat) → List (List UInt8) → List (List UInt8) → Prop
  | reword {front back : List (List UInt8)} {line other : List UInt8} : Reworded line other →
    Edit id (front ++ line :: back) (front ++ other :: back)
  | insert {front back : List (List UInt8)} {idle : List UInt8} : IsIdle idle →
    Edit (fun number => if number ≤ front.length then number else number + 1)
      (front ++ back) (front ++ idle :: back)
  | delete {front back : List (List UInt8)} {idle : List UInt8} : IsIdle idle →
    Edit (fun number => if number ≤ front.length then number else number - 1)
      (front ++ idle :: back) (front ++ back)

/-- Any number of edits, one after another. -/
inductive Edits : (Nat → Nat) → List (List UInt8) → List (List UInt8) → Prop
  | none {lines : List (List UInt8)} : Edits id lines lines
  | more {numbers others : Nat → Nat} {lines edited last : List (List UInt8)} :
    Edits numbers lines edited → Edit others edited last → Edits (others ∘ numbers) lines last

theorem isMargin_nil : IsMargin [] := ⟨List.forall_mem_nil _, List.not_mem_nil⟩

theorem IsMargin.unmarked {margin : List Char} (isMargin : IsMargin margin) :
    commentSign ∉ Text.encode margin := by
  intro member
  have blank := isMargin.blank '#' (commentSign_mem_encode_iff.mp member)
  exact absurd blank (by decide)

/-- No spelling of an instruction begins a comment. -/
theorem Respelled.unmarked {text other : List Char} (respelled : Respelled text other)
    (unmarked : '#' ∉ text) : '#' ∉ other := by
  cases respelled with
  | @mnemonic indent word other rest _ _ _ _ same =>
    have recased : '#' ∉ other := by
      intro member
      have upper := List.mem_map_of_mem (f := Char.toUpper) member
      rw [← same] at upper
      obtain ⟨c, inside, equal⟩ := List.mem_map.mp upper
      rcases Text.eq_or_isAlpha_of_toUpper equal with rfl | ⟨-, letter⟩
      · simp [inside] at unmarked
      · exact absurd letter (by decide)
    simp_all
  | @register front back letter other _ _ _ _ _ _ _ second =>
    have distinct : '#' ≠ other := by
      rintro rfl
      exact absurd second (by decide)
    simp_all
  | @separator front gap other back c _ _ _ _ gapping =>
    have apart : '#' ∉ other := fun member => absurd (gapping.parts '#' member) (by decide)
    simp_all

/-- Blanks at the ends are not read, also where the rest is no text. -/
theorem read_margins {front back : List Char} (before : IsMargin front) (after : IsMargin back)
    (kept : List UInt8) :
    Statement.read (Text.encode front ++ kept ++ Text.encode back) = Statement.read kept := by
  rw [Statement.read, Text.decode?_append_encode, Text.decode?_encode_append, Statement.read]
  cases Text.decode? kept with
  | none => rfl
  | some text =>
    dsimp only [Option.map_some]
    rw [Text.trim_margins before.blank after.blank]

/-- What is read of a line is the same after a change to it. -/
theorem read_reworded {line other : List UInt8} (reworded : Reworded line other) :
    Statement.read (other.takeWhile (· != commentSign)) =
      Statement.read (line.takeWhile (· != commentSign)) := by
  cases reworded with
  | comment unmarked first second =>
    rw [takeWhile_append_comment unmarked first.marked,
      takeWhile_append_comment unmarked second.marked]
  | @margins kept comment front back front' back' unmarked isComment before after before' after' =>
    have visible {front back : List Char} (before : IsMargin front) (after : IsMargin back) :
        commentSign ∉ Text.encode front ++ kept ++ Text.encode back := by
      simp [before.unmarked, after.unmarked, unmarked]
    rw [takeWhile_append_comment (visible before after) isComment.marked,
      takeWhile_append_comment (visible before' after') isComment.marked,
      read_margins before after, read_margins before' after']
  | spelling unmarked isComment respelled =>
    have still := respelled.unmarked unmarked
    rw [takeWhile_append_comment (mt commentSign_mem_encode_iff.mp unmarked) isComment.marked,
      takeWhile_append_comment (mt commentSign_mem_encode_iff.mp still) isComment.marked,
      read_encode, read_encode, ofText_respelled respelled]

theorem IsIdle.read {line : List UInt8} (idle : IsIdle line) :
    Statement.read (line.takeWhile (· != commentSign)) = .ok .blank := by
  obtain ⟨margin, comment, isMargin, isComment, rfl⟩ := idle
  have kept := read_margins isMargin isMargin_nil []
  rw [List.append_nil, Text.encode_nil, List.append_nil] at kept
  rw [takeWhile_append_comment isMargin.unmarked isComment.marked, kept]
  rfl

/-- An idle line says nothing, whatever its number is. -/
theorem filter_speaks_idle {idle : List UInt8} (isIdle : IsIdle idle) (numbers : Nat → Nat)
    (number : Nat) (back : List (List UInt8)) :
    ((sayings number (idle :: back)).map (Saying.renumber numbers)).filter Saying.speaks =
      ((sayings (number + 1) back).map (Saying.renumber numbers)).filter Saying.speaks := by
  rw [sayings_cons, isIdle.read]
  rfl

section
variable {numbers : Nat → Nat} {lines edited : List (List UInt8)}

/-- An edit leaves what is said, on lines with the numbers that it gives them. -/
theorem outline_edit (edit : Edit numbers lines edited) :
    outline edited = (outline lines).map (Saying.renumber numbers) := by
  have moved : (outline lines).map (Saying.renumber numbers) =
      ((sayings 1 lines).map (Saying.renumber numbers)).filter Saying.speaks := by
    rw [outline, List.filter_map]
    simp only [Function.comp_def, speaks_renumber]
  have still (number : Nat) (lines : List (List UInt8)) :
      (sayings number lines).map (Saying.renumber id) = sayings number lines :=
    sayings_renumber number number lines fun _ _ => rfl
  rw [moved, outline]
  cases edit with
  | @reword front back line other reworded =>
    rw [still, sayings_append, sayings_append, sayings_cons, sayings_cons, read_reworded reworded]
  | @insert front back idle isIdle =>
    have later := filter_speaks_idle isIdle id (1 + front.length) back
    rw [still, still] at later
    rw [sayings_append, List.filter_append, later, sayings_append, List.map_append,
      List.filter_append, sayings_renumber 1 1 front,
      sayings_renumber _ (1 + front.length + 1) back]
    · grind
    · grind
  | @delete front back idle isIdle =>
    rw [sayings_append, sayings_append, List.map_append, List.filter_append, List.filter_append,
      filter_speaks_idle isIdle, sayings_renumber 1 1 front,
      sayings_renumber _ (1 + front.length) back]
    · grind
    · grind

theorem outline_edits (edits : Edits numbers lines edited) :
    outline edited = (outline lines).map (Saying.renumber numbers) := by
  induction edits with
  | none => exact (List.map_id _).symm
  | more _ edit ih =>
    rw [outline_edit edit, ih, List.map_map]
    rfl

end

/-- Layout does not matter: what can be edited without a change to what is said is not noted, is
not in the program, and is not why a source is refused. -/
theorem assemble_edits {before after : List UInt8} {numbers : Nat → Nat}
    (edits : Edits numbers (before.splitOn newline) (after.splitOn newline))
    (short : Short before) (shortened : Short after) :
    (assemble after).notices = (assemble before).notices ∧
      (assemble after).result =
        (assemble before).result.mapError (Diagnostic.renumber numbers) := by
  have outlined := assemble_eq_outline shortened
  rw [outline_edits edits, outcome_renumber, ← assemble_eq_outline short] at outlined
  rw [outlined]
  exact ⟨rfl, rfl⟩

/-- A line with an operand that is no byte. -/
def oversized : List UInt8 := Text.encode "ldi r1,300 # big".toList

/-- The same line spelled in another way, with a comment above it and not behind it. -/
def oversizedEdited : List UInt8 := Text.encode "# big\nLDI r1\t300 \n".toList

theorem assemble_edits_oversized :
    (assemble oversized).result = .error ⟨1, .invalidOperand⟩ ∧
      (assemble oversizedEdited).result = .error ⟨2, .invalidOperand⟩ ∧
      (assemble oversizedEdited).notices = [] := by
  have big : IsComment (Text.encode "# big".toList) := isComment_cons (by decide)
  have recased := @Respelled.mnemonic [] "ldi".toList "LDI".toList " r1,300 ".toList
    ⟨by decide, by decide⟩ (List.forall_mem_nil _) (List.all_iff_forall_prop.mp (by decide))
    (by rintro c ⟨⟩; rfl) (by decide)
  have separated := @Respelled.separator "LDI r1".toList [','] ['\t'] "00 ".toList '3'
    ⟨by decide, by decide⟩ (by decide) (by decide)
    ⟨by decide, List.forall_mem_singleton.mpr rfl, by decide⟩
    ⟨by decide, List.forall_mem_singleton.mpr rfl, by decide⟩
  have removed := @Reworded.comment (Text.encode "LDI r1\t300 ".toList) _ _ (by decide) big
    isComment_nil
  have edits : Edits _ (oversized.splitOn newline) (oversizedEdited.splitOn newline) :=
    Edits.none
      |>.more (@Edit.reword [] [] _ _ (.spelling (by decide) big recased))
      |>.more (@Edit.reword [] [] _ _ (.spelling (by decide) big separated))
      |>.more (@Edit.reword [] [] _ _ removed)
      |>.more (@Edit.insert [] [_] _ ⟨[], _, isMargin_nil, big, rfl⟩)
      |>.more (@Edit.insert [_, _] [] _ ⟨[], [], isMargin_nil, isComment_nil, rfl⟩)
  obtain ⟨notices, result⟩ := assemble_edits edits (by decide) (by decide)
  refine ⟨rfl, ?_, ?_⟩
  · rw [result]
    rfl
  · rw [notices]
    rfl

end LS8.Assembly
