import LS8.Proofs.Assembly.Executing
import LS8.Proofs.Assembly.Outline

/-! Sources one behind the other. The lines of the second are laid out behind the first as they
are alone, only farther on, so its labels stand at addresses that are larger by the length of the
first program, and nothing else is changed by what is in front of it. -/
namespace LS8.Assembly

/-- What a source is assembled to, and the draft that this is linked from. -/
structure Assembles (source : List UInt8) (draft : Draft) (program : Program) : Prop where
  read : (Assembler.start.feedAll source).map Assembler.draft = .ok draft
  linked : (assemble source).result = .ok program

theorem Assembles.exists_layout {source : List UInt8} {draft : Draft} {program : Program}
    (assembles : Assembles source draft program) :
    ∃ laid : Layout, draft = laid.draft ∧
      (sourceLines 1 source).foldlM Layout.add Layout.empty = .ok laid ∧
      List.Forall₂ (Operand.Becomes laid.labels) (laid.cells.map Cell.operand) program := by
  obtain ⟨read, laid, fed, drafted, accepted, second⟩ := assemble_eq_ok assembles.linked
  have same := assembles.read
  rw [fed] at same
  cases same
  exact ⟨laid, drafted, accepted, becomes_of_mapM second⟩

def SourceLine.later (lines : Nat) (line : SourceLine) : SourceLine :=
  { line with number := line.number + lines }

theorem sourceLines_later (number lines : Nat) (source : List UInt8) :
    sourceLines (number + lines) source =
      (sourceLines number source).map (SourceLine.later lines) := by
  induction source using source_induction generalizing number with
  | last line clear =>
    rw [sourceLines_last _ clear, sourceLines_last _ clear]
    rfl
  | next line rest clear ih =>
    rw [sourceLines_next _ _ clear, sourceLines_next _ _ clear, List.map_cons, ← ih,
      Nat.add_right_comm]
    rfl

theorem sourceLines_concatenated (number : Nat) (first second : List UInt8) :
    sourceLines number (first ++ newline :: second) =
      sourceLines number first ++ sourceLines (number + (first.count newline + 1)) second := by
  induction first using source_induction generalizing number with
  | last line clear =>
    rw [sourceLines_next _ _ clear, sourceLines_last _ clear, List.count_eq_zero.mpr clear]
    rfl
  | next line rest clear ih =>
    have counted : (line ++ newline :: rest).count newline = rest.count newline + 1 := by
      rw [List.count_append, List.count_eq_zero.mpr clear, List.count_cons_self, Nat.zero_add]
    rw [List.append_assoc, List.cons_append, sourceLines_next _ _ clear, ih,
      sourceLines_next _ _ clear, counted, List.cons_append]
    congr 3
    omega

def Cell.later (lines : Nat) (cell : Cell) : Cell := { cell with line := cell.line + lines }

def Definition.farther (bytes : Nat) (definition : Definition) : Definition :=
  { definition with address := definition.address + bytes }

namespace Layout

/-- A layout behind another one. Its lines come later, and its labels stand farther on. -/
def followedBy (front : Layout) (lines : Nat) (back : Layout) : Layout :=
  ⟨front.cells ++ back.cells.map (Cell.later lines),
    front.labels ++ back.labels.map (Definition.farther front.cells.length)⟩

/-- There is room for a layout behind another one, and no name is in both. -/
structure Room (front back : Layout) : Prop where
  bytes : front.cells.length + back.cells.length ≤ programCapacity
  labels : front.labels.length + back.labels.length ≤ maxLabels
  apart : ∀ definition ∈ front.labels, ∀ other ∈ back.labels, definition.label ≠ other.label

variable {front back laid added : Layout} {lines : List SourceLine}

theorem followedBy_empty (front : Layout) (count : Nat) :
    front.followedBy count empty = front := by
  simp [followedBy, empty]

theorem append_followedBy (count number : Nat) (contribution : Contribution) :
    (front.followedBy count back).append (number + count) contribution =
      front.followedBy count (back.append number contribution) := by
  cases contribution with
  | bytes operands => simp [append, followedBy, Cell.later, Function.comp_def]
  | label label => simp [append, followedBy, Definition.farther, Nat.add_comm]

/-- What is laid out stays. -/
theorem prefix_of_add {line : SourceLine} (accepted : back.add line = .ok added) :
    back.cells <+: added.cells ∧ back.labels <+: added.labels := by
  obtain ⟨statement, contribution, -, -, rfl⟩ := add_eq_ok accepted
  cases contribution with
  | bytes operands => exact ⟨List.prefix_append _ _, List.prefix_rfl⟩
  | label label => exact ⟨List.prefix_rfl, List.prefix_append _ _⟩

theorem prefix_of_addAll (accepted : lines.foldlM add back = .ok laid) :
    back.cells <+: laid.cells ∧ back.labels <+: laid.labels := by
  induction lines generalizing back with
  | nil =>
    cases accepted
    exact ⟨List.prefix_rfl, List.prefix_rfl⟩
  | cons line rest ih =>
    rw [List.foldlM_cons] at accepted
    cases first : back.add line with
    | error diagnostic => rw [first] at accepted; contradiction
    | ok added =>
      rw [first] at accepted
      have step := prefix_of_add first
      have run := ih accepted
      exact ⟨step.1.trans run.1, step.2.trans run.2⟩

theorem Room.of_prefix (room : front.Room laid)
    (inside : back.cells <+: laid.cells ∧ back.labels <+: laid.labels) : front.Room back where
  bytes := Nat.le_trans (Nat.add_le_add_left inside.1.length_le _) room.bytes
  labels := Nat.le_trans (Nat.add_le_add_left inside.2.length_le _) room.labels
  apart := fun definition member other behind =>
    room.apart definition member other (inside.2.subset behind)

/-- A line is added behind another layout as it is added alone. -/
theorem add_followedBy {line : SourceLine} (accepted : back.add line = .ok added)
    (room : front.Room added) (count : Nat) :
    (front.followedBy count back).add (line.later count) = .ok (front.followedBy count added) := by
  obtain ⟨statement, contribution, stated, contributed, rfl⟩ := add_eq_ok accepted
  have again : statement.contribution (front.followedBy count back).cells.length
      ((front.followedBy count back).labels.map Definition.label) = .ok contribution := by
    refine contribution_eq_of_room contributed ?_ ?_
    · rintro placed rfl
      have bytes := room.bytes
      simp only [append, followedBy, List.length_append, List.length_map] at bytes ⊢
      omega
    · rintro label rfl unused
      have labels := room.labels
      have apart (definition : Definition) (member : definition ∈ front.labels) :
          definition.label ≠ label :=
        room.apart definition member ⟨label, back.cells.length⟩ (by simp [append])
      simp only [append, followedBy, List.length_append, List.length_map, List.length_singleton,
        List.map_append, List.map_map, List.mem_append, not_or] at labels ⊢
      refine ⟨⟨?_, unused⟩, by omega⟩
      intro member
      obtain ⟨definition, inside, same⟩ := List.mem_map.mp member
      exact apart definition inside same
  rw [add, SourceLine.contribution]
  have read : (line.later count).read = .ok statement := stated
  rw [read]
  dsimp only
  rw [again]
  exact congrArg Except.ok (append_followedBy count line.number contribution)

theorem foldlM_followedBy (accepted : lines.foldlM add back = .ok laid) (room : front.Room laid)
    (count : Nat) :
    (lines.map (SourceLine.later count)).foldlM add (front.followedBy count back) =
      .ok (front.followedBy count laid) := by
  induction lines generalizing back with
  | nil =>
    cases accepted
    rfl
  | cons line rest ih =>
    rw [List.foldlM_cons] at accepted
    cases first : back.add line with
    | error diagnostic => rw [first] at accepted; contradiction
    | ok added =>
      rw [first] at accepted
      have step := add_followedBy first (room.of_prefix (prefix_of_addAll accepted)) count
      rw [List.map_cons, List.foldlM_cons, step]
      exact ih accepted

theorem address?_front {label : Label} {address : Nat} (count : Nat)
    (found : Definition.address? front.labels label = some address) :
    Definition.address? (front.followedBy count back).labels label = some address := by
  obtain ⟨definition, first, rfl⟩ := Option.map_eq_some_iff.mp found
  simp only [Definition.address?, followedBy, List.find?_append, first, Option.some_or,
    Option.map_some]

theorem address?_back {label : Label} {address : Nat} (room : front.Room back) (count : Nat)
    (found : Definition.address? back.labels label = some address) :
    Definition.address? (front.followedBy count back).labels label =
      some (address + front.cells.length) := by
  obtain ⟨definition, first, rfl⟩ := Option.map_eq_some_iff.mp found
  have named : definition.label = label := by simpa using List.find?_some first
  have absent : front.labels.find? (fun definition => definition.label = label) = none := by
    simp only [List.find?_eq_none, decide_eq_true_eq]
    intro other member
    rw [← named]
    exact room.apart other member definition (List.mem_of_find?_eq_some first)
  rw [Definition.address?, followedBy, List.find?_append, absent, Option.none_or, List.find?_map]
  exact congrArg (Option.map Definition.address ∘ Option.map (Definition.farther _)) first

variable {operands : List Operand} {bytes : List UInt8}

theorem becomes_front (count : Nat)
    (become : List.Forall₂ (Operand.Becomes front.labels) operands bytes) :
    List.Forall₂ (Operand.Becomes (front.followedBy count back).labels) operands bytes := by
  refine become.imp fun operand value becomes => ?_
  cases becomes with
  | byte value => exact .byte value
  | label found => exact .label (address?_front count found)

/-- Behind another layout a label becomes a larger byte, and every other operand the same. -/
theorem becomes_back (room : front.Room back) (count : Nat)
    (become : List.Forall₂ (Operand.Becomes back.labels) operands bytes)
    (near : ∀ label, .label label ∈ operands → ∀ address,
      Definition.address? back.labels label = some address → address + front.cells.length ≤ 255) :
    ∃ moved, List.Forall₂ (Operand.Becomes (front.followedBy count back).labels) operands moved ∧
      moved.map UInt8.toNat = List.zipWith (fun operand byte =>
        byte.toNat + if operand.isLabel then front.cells.length else 0) operands bytes := by
  induction become with
  | nil => exact ⟨[], .nil, rfl⟩
  | @cons operand value operands bytes first _ ih =>
    obtain ⟨moved, become, values⟩ :=
      ih fun label member => near label (List.mem_cons_of_mem _ member)
    cases first with
    | byte value =>
      refine ⟨value :: moved, .cons (.byte value) become, ?_⟩
      simp [values, Operand.isLabel]
    | @label label _ found =>
      have low := near label List.mem_cons_self _ found
      have sum : (UInt8.ofNat (value.toNat + front.cells.length)).toNat =
          value.toNat + front.cells.length := by
        rw [UInt8.toNat_ofNat', Nat.mod_eq_of_lt (Nat.lt_succ_of_le low)]
      refine ⟨UInt8.ofNat (value.toNat + front.cells.length) :: moved, .cons (.label ?_) become, ?_⟩
      · rw [sum]
        exact address?_back room count found
      · rw [List.map_cons, List.zipWith_cons_cons, sum, values]
        rfl

end Layout

theorem le_address_of_mem_referencesFrom {start : Nat} {cells : List Cell} {reference : Reference}
    (member : reference ∈ referencesFrom start cells) : start ≤ reference.address := by
  induction cells generalizing start with
  | nil => cases member
  | cons cell rest ih =>
    obtain ⟨line, operand⟩ := cell
    cases operand with
    | byte value => exact Nat.le_of_succ_le (ih member)
    | label label =>
      rcases List.mem_cons.mp member with rfl | later
      · exact Nat.le_refl start
      · exact Nat.le_of_succ_le (ih later)

/-- A byte is patched if its operand is a label. -/
theorem address_mem_referencesFrom (start : Nat) {index : Nat} {cells : List Cell}
    (inside : index < cells.length) :
    start + index ∈ (referencesFrom start cells).map Reference.address ↔
      cells[index].operand.isLabel = true := by
  induction cells generalizing start index with
  | nil => cases inside
  | cons cell rest ih =>
    have beyond : start ∉ (referencesFrom (start + 1) rest).map Reference.address := by
      intro member
      obtain ⟨reference, later, same⟩ := List.mem_map.mp member
      have after := le_address_of_mem_referencesFrom later
      omega
    obtain ⟨line, operand⟩ := cell
    cases index with
    | zero => cases operand <;> simp_all [referencesFrom, Operand.isLabel]
    | succ index =>
      have later := ih (start + 1) (Nat.lt_of_succ_lt_succ inside)
      rw [Nat.add_assoc, Nat.add_comm 1] at later
      cases operand <;> simp_all [referencesFrom]

theorem exists_reference (start : Nat) {cells : List Cell} {label : Label}
    (member : .label label ∈ cells.map Cell.operand) :
    ∃ reference ∈ referencesFrom start cells, reference.label = label := by
  induction cells generalizing start with
  | nil => cases member
  | cons cell rest ih =>
    obtain ⟨line, operand⟩ := cell
    rcases List.mem_cons.mp member with same | later
    · cases same
      exact ⟨_, List.mem_cons_self, rfl⟩
    · obtain ⟨reference, found, same⟩ := ih (start + 1) later
      cases operand with
      | byte value => exact ⟨reference, found, same⟩
      | label other => exact ⟨reference, List.mem_cons_of_mem _ found, same⟩

/-- The label operands of a layout are where a draft of it is patched. -/
theorem zipWith_isLabel (laid : Layout) {bytes : List UInt8}
    (size : laid.cells.length = bytes.length) (distance : Nat) :
    List.zipWith (fun operand byte => byte.toNat + if operand.isLabel then distance else 0)
        (laid.cells.map Cell.operand) bytes =
      bytes.mapIdx fun address byte => byte.toNat +
        if address ∈ laid.draft.references.map Reference.address then distance else 0 := by
  refine List.ext_getElem (by simp [size]) fun index inside within => ?_
  have bounded : index < laid.cells.length := by
    rwa [List.length_mapIdx, ← size] at within
  have patched := address_mem_referencesFrom 0 bounded
  rw [Nat.zero_add] at patched
  simp only [List.getElem_zipWith, List.getElem_mapIdx, List.getElem_map]
  exact congrArg _ (if_congr patched.symm rfl rfl)

/-- The second source is laid out behind the first. -/
theorem foldlM_concatenated {first second : List UInt8} {front back : Layout}
    (laid : (sourceLines 1 first).foldlM Layout.add Layout.empty = .ok front)
    (laying : (sourceLines 1 second).foldlM Layout.add Layout.empty = .ok back)
    (room : front.Room back) :
    (sourceLines 1 (first ++ newline :: second)).foldlM Layout.add Layout.empty =
      .ok (front.followedBy (first.count newline + 1) back) := by
  have run := Layout.foldlM_followedBy laying room (first.count newline + 1)
  rw [← sourceLines_later, Layout.followedBy_empty] at run
  rw [sourceLines_concatenated, List.foldlM_append, laid]
  exact run

theorem eq_of_map_toNat {bytes others : List UInt8}
    (same : bytes.map UInt8.toNat = others.map UInt8.toNat) : bytes = others :=
  List.map_injective_iff.mpr (fun _ _ => UInt8.toNat_inj.mp) same

/-- Sources one behind the other are linked: the second program follows the first, and in it only
the addresses of its labels are larger, by as much as there is in front of it. -/
theorem assemble_concatenated {first second : List UInt8} {ahead behind : Draft}
    {front back : Program} (assembled : Assembles first ahead front)
    (assembling : Assembles second behind back)
    (apart : ∀ definition ∈ ahead.definitions, ∀ other ∈ behind.definitions,
      definition.label ≠ other.label)
    (few : ahead.definitions.length + behind.definitions.length ≤ maxLabels)
    (room : front.length + back.length ≤ programCapacity)
    (near : ∀ reference ∈ behind.references, ∀ address,
      Definition.address? behind.definitions reference.label = some address →
        address + front.length ≤ 255) :
    ∃ moved, (assemble (first ++ newline :: second)).result = .ok (front ++ moved) ∧
      (moved.map UInt8.toNat = back.mapIdx fun address byte =>
        byte.toNat + if address ∈ behind.references.map Reference.address
          then front.length else 0) ∧
      (behind.references = [] → moved = back) := by
  obtain ⟨base, rfl, laidFirst, becomeFirst⟩ := assembled.exists_layout
  obtain ⟨later, rfl, laidSecond, becomeSecond⟩ := assembling.exists_layout
  have length : base.cells.length = front.length := by
    rw [← becomeFirst.length_eq, List.length_map]
  have lengthLater : later.cells.length = back.length := by
    rw [← becomeSecond.length_eq, List.length_map]
  have rooms : base.Room later := ⟨by rwa [length, lengthLater], few, apart⟩
  obtain ⟨moved, becomeMoved, values⟩ := Layout.becomes_back rooms (first.count newline + 1)
    becomeSecond fun label member address found => by
      obtain ⟨reference, used, rfl⟩ := exists_reference 0 member
      rw [length]
      exact near reference used address found
  have shifted : moved.map UInt8.toNat = back.mapIdx fun address byte =>
      byte.toNat + if address ∈ later.draft.references.map Reference.address
        then front.length else 0 := by
    rw [values, length, zipWith_isLabel later lengthLater]
  refine ⟨moved, ?_, shifted, ?_⟩
  · rw [assemble_of_laid (foldlM_concatenated laidFirst laidSecond rooms)]
    refine mapM_of_becomes ?_
    have operands : (base.followedBy (first.count newline + 1) later).cells.map Cell.operand =
        base.cells.map Cell.operand ++ later.cells.map Cell.operand := by
      simp [Layout.followedBy, Function.comp_def, Cell.later]
    rw [operands]
    exact List.rel_append (Layout.becomes_front _ becomeFirst) becomeMoved
  · intro plain
    simp only [plain, List.map_nil, List.not_mem_nil, if_false, Nat.add_zero] at shifted
    have still : back.mapIdx (fun _ byte => byte.toNat) = back.map UInt8.toNat :=
      List.ext_getElem (by simp) (by simp)
    exact eq_of_map_toNat (shifted.trans still)

/-- A label behind an instruction that uses it, and no newline at the end. -/
def leading : List UInt8 := Text.encode "LDI R0, a\na: # here".toList

def leadingLabel : Label := ⟨['a'], by decide, by decide⟩

/-- A label in front of an instruction that uses it beside a number. -/
def trailing : List UInt8 := Text.encode "b:\nLDI R3, b\nLDI R2, 2".toList

def trailingLabel : Label := ⟨['b'], by decide, by decide⟩

theorem assemble_concatenated_trailing :
    (assemble (leading ++ newline :: trailing)).result =
      .ok [0x82, 0, 3, 0x82, 3, 3, 0x82, 2, 2] := by
  have ahead : Assembles leading
      ⟨[0x82, 0, 0], [⟨leadingLabel, 3⟩], [⟨leadingLabel, 2, 1⟩]⟩ [0x82, 0, 3] := ⟨rfl, rfl⟩
  have behind : Assembles trailing
      ⟨[0x82, 3, 0, 0x82, 2, 2], [⟨trailingLabel, 0⟩], [⟨trailingLabel, 2, 2⟩]⟩
      [0x82, 3, 0, 0x82, 2, 2] := ⟨rfl, rfl⟩
  have near : ∀ reference ∈ [Reference.mk trailingLabel 2 2], ∀ address,
      Definition.address? [⟨trailingLabel, 0⟩] reference.label = some address →
        address + 3 ≤ 255 := by
    intro reference member address found
    obtain rfl := List.mem_singleton.mp member
    cases found
    decide
  obtain ⟨moved, assembled, values, -⟩ :=
    assemble_concatenated ahead behind (by decide) (by decide) (by decide) near
  have bytes : moved = [0x82, 3, 3, 0x82, 2, 2] := eq_of_map_toNat values
  rw [assembled, bytes]
  rfl

end LS8.Assembly
