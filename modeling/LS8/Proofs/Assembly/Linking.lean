import LS8.Proofs.Assembly.Placement

/-! Linking drafts. Putting addresses in at the references of a draft is resolving the cells
of its layout, and the first reference that is refused is that of the first such cell. -/
namespace LS8.Assembly

/-- Cells in front of the first reference keep their bytes, and each reference patches the
byte that was left for it. -/
theorem link_referencesFrom (labels : List Definition) (cells : List Cell) (front : Program) :
    (link labels (referencesFrom front.length cells) (front ++ cells.map Cell.blank)).result =
      (cells.mapM (Cell.resolve labels)).map (front ++ ·) := by
  induction cells generalizing front with
  | nil => rfl
  | cons cell rest ih =>
    -- the byte before the next cell has its final value
    have advance (value : UInt8) :
        (link labels (referencesFrom (front.length + 1) rest)
          (front ++ value :: rest.map Cell.blank)).result =
            (rest.mapM (Cell.resolve labels)).map fun bytes => front ++ value :: bytes := by
      have later := ih (front ++ [value])
      simpa only [List.length_append, List.length_singleton, List.append_assoc,
        List.singleton_append] using later
    obtain ⟨line, operand⟩ := cell
    rw [List.mapM_cons]
    cases operand with
    | byte value =>
      have resolved : Cell.resolve labels ⟨line, .byte value⟩ = .ok value := rfl
      rw [resolved, List.map_cons]
      refine (advance value).trans ?_
      cases rest.mapM (Cell.resolve labels) <;> rfl
    | label label =>
      cases found : Definition.address? labels label with
      | none =>
        have refused : Cell.resolve labels ⟨line, .label label⟩ =
            .error ⟨line, .undefinedLabel⟩ := by
          simp only [Cell.resolve_label, found]
        rw [refused, referencesFrom, link, found]
        rfl
      | some address =>
        by_cases low : address < 256
        · have resolved : Cell.resolve labels ⟨line, .label label⟩ =
              .ok (UInt8.ofNat address) := by
            simp only [Cell.resolve_label, found, low, if_true]
          have patched : (front ++ Cell.blank ⟨line, .label label⟩ :: rest.map Cell.blank).set
              front.length (UInt8.ofNat address) =
                front ++ UInt8.ofNat address :: rest.map Cell.blank := by
            simp
          simp only [resolved, referencesFrom, link, found, low, if_true, List.map_cons, patched,
            advance]
          cases rest.mapM (Cell.resolve labels) <;> rfl
        · have refused : Cell.resolve labels ⟨line, .label label⟩ =
              .error ⟨line, .invalidOperand⟩ := by
            simp only [Cell.resolve_label, found, low, if_false]
          simp only [refused, referencesFrom, link, found, low, if_false]
          rfl

/-- A draft is linked to the program of its layout. -/
theorem link_draft (layout : Layout) :
    (link layout.draft.definitions layout.draft.references layout.draft.code).result =
      secondPass layout := by
  have linked := link_referencesFrom layout.labels layout.cells []
  rw [List.length_nil, List.nil_append] at linked
  refine linked.trans ?_
  rw [secondPass]
  cases layout.cells.mapM (Cell.resolve layout.labels) <;> rfl

end LS8.Assembly
