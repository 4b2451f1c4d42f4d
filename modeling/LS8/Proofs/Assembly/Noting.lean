import LS8.Log.Record
import LS8.Proofs.Assembly.Concatenating

/-! What is noted in the course of assembling. Labels are noted while the lines are read, as far as
this gets, and their uses only when every line is known. The notes can be told from the lines alone;
and where a program comes of them they say of each of its bytes that was patched what it was patched
with, and why. -/
namespace LS8.Assembly

/-- The bytes that a line asks for, one for each operand. -/
def SourceLine.operands (line : SourceLine) : List (Except Cause Operand) :=
  match line.read with
  | .error _ => []
  | .ok statement => statement.operands

/-- The lines that the first pass gets to, each with those before it. These are all accepted. -/
def reached (lines : List SourceLine) : List (List SourceLine × SourceLine) :=
  (lines.inits.zip lines).filter fun place => (firstPass place.1).isOk

/-- The lines that the first pass gets to behind others. -/
def reachedAfter (front rest : List SourceLine) : List (List SourceLine × SourceLine) :=
  ((rest.inits.map (front ++ ·)).zip rest).filter fun place => (firstPass place.1).isOk

theorem reachedAfter_nil (lines : List SourceLine) : reachedAfter [] lines = reached lines := by
  simp [reachedAfter, reached]

theorem reachedAfter_cons_of_ok {front : List SourceLine} {layout : Layout}
    (laid : firstPass front = .ok layout) (line : SourceLine) (rest : List SourceLine) :
    reachedAfter front (line :: rest) = (front, line) :: reachedAfter (front ++ [line]) rest := by
  simp [reachedAfter, List.inits, Function.comp_def, laid, Except.isOk, Except.toBool]

/-- The first pass does not get past a line that is refused. -/
theorem reachedAfter_of_error {front : List SourceLine} {diagnostic : Diagnostic}
    (refused : firstPass front = .error diagnostic) (rest : List SourceLine) :
    reachedAfter front rest = [] := by
  apply List.filter_eq_nil_iff.mpr
  intro place member
  obtain ⟨more, -, same⟩ := List.mem_map.mp (List.of_mem_zip member).1
  have stuck : firstPass (front ++ more) = .error diagnostic := by
    rw [firstPass, List.foldlM_append, ← firstPass, refused]
    rfl
  rw [← same, stuck]
  exact Bool.false_ne_true

/-- The label that a line defines if no line before it does. It stands behind their bytes. -/
def definition? (place : List SourceLine × SourceLine) : Option Definition :=
  (place.2.label?.filter fun label => label ∉ place.1.filterMap SourceLine.label?).map
    fun label => ⟨label, (place.1.flatMap SourceLine.operands).length⟩

/-- The labels that are noted. Whether there is still a place for one is not asked. -/
def notedLabels (lines : List SourceLine) : List Definition :=
  (reached lines).filterMap definition?

/-- A label operand with the address of its byte. -/
structure Use where
  label : Label
  address : Nat
  deriving DecidableEq

def use? : Except Cause Operand × Nat → Option Use
  | (.ok (.label label), address) => some ⟨label, address⟩
  | _ => none

/-- The label operands of some lines. -/
def labelUses (lines : List SourceLine) : List Use :=
  (lines.flatMap SourceLine.operands).zipIdx.filterMap use?

structure Patch extends Use where
  target : UInt8
  deriving DecidableEq

/-- A use is patched with the address of its label if that is a byte. -/
def patch? (definitions : List Definition) (use : Use) : Option Patch :=
  ((Definition.address? definitions use.label).filter (· < 256)).map
    fun address => ⟨use, UInt8.ofNat address⟩

/-- The patches made, up to the first use that cannot be patched. -/
def patches (definitions : List Definition) (uses : List Use) : List Patch :=
  (uses.takeWhile fun use => (patch? definitions use).isSome).filterMap (patch? definitions)

def Definition.notice (definition : Definition) : Notice :=
  .label definition.label definition.address

def Patch.notice (patch : Patch) : Notice := .patched patch.label patch.target patch.address

def Reference.use (reference : Reference) : Use := ⟨reference.label, reference.address⟩

section Linking

variable (definitions : List Definition)

theorem patches_cons_none {use : Use} (unknown : patch? definitions use = none)
    (rest : List Use) : patches definitions (use :: rest) = [] := by
  simp [patches, unknown]

theorem patches_cons_some {use : Use} {patch : Patch} (known : patch? definitions use = some patch)
    (rest : List Use) : patches definitions (use :: rest) = patch :: patches definitions rest := by
  simp [patches, known]

/-- A use that can be patched is, and then the others are. -/
theorem link_cons_some {reference : Reference} {patch : Patch}
    (known : patch? definitions reference.use = some patch) (rest : List Reference)
    (code : Program) : link definitions (reference :: rest) code =
      let linked := link definitions rest (code.set patch.address patch.target)
      ⟨patch.notice :: linked.notices, linked.result⟩ := by
  obtain ⟨address, found, rfl⟩ := Option.map_eq_some_iff.mp known
  obtain ⟨found, low⟩ := Option.filter_eq_some_iff.mp found
  have found : Definition.address? definitions reference.label = some address := found
  rw [link, found]
  exact if_pos (of_decide_eq_true low)

theorem link_cons_none {reference : Reference} (unknown : patch? definitions reference.use = none)
    (rest : List Reference) (code : Program) :
    ∃ diagnostic, link definitions (reference :: rest) code = ⟨[], .error diagnostic⟩ := by
  have none := Option.map_eq_none_iff.mp unknown
  rw [link]
  split
  · exact ⟨_, rfl⟩
  · rename_i address found
    have high : ¬address < 256 := by
      intro low
      have found : Definition.address? definitions reference.use.label = some address := found
      simp [found, Option.filter_some, low] at none
    exact ⟨_, if_neg high⟩

/-- What is noted of linking depends on no byte. -/
theorem notices_link (references : List Reference) (code : Program) :
    (link definitions references code).notices =
      (patches definitions (references.map Reference.use)).map Patch.notice := by
  induction references generalizing code with
  | nil => rfl
  | cons reference rest ih =>
    rw [List.map_cons]
    cases found : patch? definitions reference.use with
    | none =>
      obtain ⟨diagnostic, refused⟩ := link_cons_none definitions found rest code
      rw [patches_cons_none definitions found, refused]
      rfl
    | some patch =>
      rw [patches_cons_some definitions found, link_cons_some definitions found, List.map_cons]
      exact congrArg _ (ih _)

end Linking

/-- The references of cells are the label operands among them. -/
theorem use_referencesFrom (start : Nat) (cells : List Cell) :
    (referencesFrom start cells).map Reference.use =
      ((cells.map fun cell => .ok cell.operand).zipIdx start).filterMap use? := by
  induction cells generalizing start with
  | nil => rfl
  | cons cell rest ih =>
    obtain ⟨line, operand⟩ := cell
    cases operand with
    | byte value =>
      rw [referencesFrom, ih]
      rfl
    | label label =>
      rw [referencesFrom, List.map_cons, ih]
      rfl

namespace Layout

/-- What a layout of some lines has of them. -/
structure Covers (layout : Layout) (lines : List SourceLine) : Prop where
  operands : lines.flatMap SourceLine.operands = layout.cells.map fun cell => .ok cell.operand
  labels : lines.filterMap SourceLine.label? = layout.labels.map Definition.label
  distinct : (layout.labels.map Definition.label).Nodup

theorem covers_empty : empty.Covers [] := ⟨rfl, rfl, .nil⟩

variable {layout added : Layout} {lines : List SourceLine} {line : SourceLine}

/-- A line that defines a label adds it, and any other line adds its bytes. -/
theorem add_cases (accepted : layout.add line = .ok added) :
    (∃ label, line.label? = some label ∧ line.operands = [] ∧
      label ∉ layout.labels.map Definition.label ∧
      added = { layout with labels := layout.labels ++ [⟨label, layout.cells.length⟩] }) ∨
    (∃ placed : List Operand, line.label? = none ∧ line.operands = placed.map .ok ∧
      added = { layout with cells := layout.cells ++ placed.map (⟨line.number, ·⟩) }) := by
  obtain ⟨statement, contribution, stated, contributed, rfl⟩ := add_eq_ok accepted
  by_cases named : ∃ label, statement = .label label
  · obtain ⟨label, rfl⟩ := named
    obtain rfl := contribution_label_eq_ok contributed
    refine .inl ⟨label, by rw [SourceLine.label?, stated], by rw [SourceLine.operands, stated]; rfl,
      ?_, rfl⟩
    intro defined
    rw [Statement.contribution, if_pos defined] at contributed
    contradiction
  · have unnamed : ∀ label, statement ≠ .label label := fun label same => named ⟨label, same⟩
    obtain ⟨placed, fitted, rfl⟩ := contribution_eq_ok unnamed contributed
    refine .inr ⟨placed, ?_, ?_, rfl⟩
    · rw [SourceLine.label?, stated]
      cases statement with
      | label label => exact absurd rfl (unnamed label)
      | _ => rfl
    · rw [SourceLine.operands, stated]
      exact (fit_eq_ok fitted).1

theorem Covers.add (covers : layout.Covers lines) (accepted : layout.add line = .ok added) :
    added.Covers (lines ++ [line]) := by
  rcases add_cases accepted with ⟨label, named, bare, unused, rfl⟩ | ⟨placed, unnamed, bytes, rfl⟩
  · refine ⟨?_, ?_, ?_⟩
    · simpa [bare] using covers.operands
    · simpa [named] using covers.labels
    · rw [List.map_append]
      refine List.nodup_append.mpr ⟨covers.distinct, List.pairwise_singleton _ _, ?_⟩
      intro other member last within same
      rw [same, List.mem_singleton.mp within] at member
      exact unused member
  · refine ⟨?_, ?_, covers.distinct⟩
    · simp [bytes, covers.operands, Function.comp_def]
    · simpa [unnamed] using covers.labels

/-- A line is noted for the label that it defines. -/
theorem Covers.announce (covers : layout.Covers lines) (line : SourceLine) :
    layout.announce line = (definition? (lines, line)).toList.map Definition.notice := by
  have size : (lines.flatMap SourceLine.operands).length = layout.draft.code.length := by
    rw [covers.operands, List.length_map, length_code_draft]
  rw [Layout.announce]
  cases stated : line.read with
  | error cause =>
    have unnamed : line.label? = none := by rw [SourceLine.label?, stated]
    simp [definition?, unnamed]
  | ok statement =>
    cases statement with
    | label label =>
      have named : line.label? = some label := by rw [SourceLine.label?, stated]
      have defined := defines_draft layout label
      rw [← covers.labels] at defined
      by_cases known : label ∈ lines.filterMap SourceLine.label?
      · simp only [Draft.announce, definition?, named, defined.mpr known, known, Option.filter_some]
        rfl
      · have free : layout.draft.defines label = false := Bool.eq_false_iff.mpr (mt defined.mp known)
        simp only [Draft.announce, definition?, named, free, known, size, Option.filter_some]
        rfl
    | blank | byte _ | instruction _ _ =>
      have unnamed : line.label? = none := by rw [SourceLine.label?, stated]
      simp [definition?, unnamed, Draft.announce]

/-- A line that is accepted adds what it is noted for. -/
theorem Covers.labels_add (covers : layout.Covers lines) (accepted : layout.add line = .ok added) :
    added.labels = layout.labels ++ (definition? (lines, line)).toList := by
  rcases add_cases accepted with ⟨label, named, -, unused, rfl⟩ | ⟨placed, unnamed, -, rfl⟩
  · have size : (lines.flatMap SourceLine.operands).length = layout.cells.length := by
      rw [covers.operands, List.length_map]
    rw [← covers.labels] at unused
    simp only [definition?, named, Option.filter_some, unused, size]
    rfl
  · simp [definition?, unnamed]

theorem firstPass_concat {front : List SourceLine} (laid : firstPass front = .ok layout)
    (line : SourceLine) : firstPass (front ++ [line]) = layout.add line := by
  rw [firstPass, List.foldlM_append, ← firstPass, laid]
  change (layout.add line).bind pure = _
  cases layout.add line <;> rfl

section Following

variable {front : List SourceLine} (laid : firstPass front = .ok layout)
  (covers : layout.Covers front)
include laid covers

/-- What is noted of lines that follow others is what their labels are noted for, as far as the
first pass gets. -/
theorem Covers.announced (rest : List SourceLine) :
    layout.announced rest =
      ((reachedAfter front rest).filterMap definition?).map Definition.notice := by
  induction rest generalizing front layout with
  | nil => rfl
  | cons line rest ih =>
    have next := firstPass_concat laid line
    rw [reachedAfter_cons_of_ok laid, Layout.announced, covers.announce,
      List.filterMap_eq_flatMap_toList, List.flatMap_cons, ← List.filterMap_eq_flatMap_toList,
      List.map_append]
    cases accepted : layout.add line with
    | ok added =>
      have later := ih (next.trans accepted) (covers.add accepted)
      exact congrArg _ later
    | error diagnostic =>
      rw [reachedAfter_of_error (next.trans accepted)]
      exact (List.append_nil _).symm

theorem Covers.addAll {rest : List SourceLine} {final : Layout}
    (accepted : rest.foldlM Layout.add layout = .ok final) :
    final.Covers (front ++ rest) ∧
      final.labels = layout.labels ++ (reachedAfter front rest).filterMap definition? := by
  induction rest generalizing front layout with
  | nil =>
    cases accepted
    simpa [reachedAfter] using covers
  | cons line rest ih =>
    rw [List.foldlM_cons] at accepted
    cases first : layout.add line with
    | error diagnostic => rw [first] at accepted; contradiction
    | ok added =>
      rw [first] at accepted
      have next := (firstPass_concat laid line).trans first
      obtain ⟨covered, labels⟩ := ih next (covers.add first) accepted
      rw [List.append_assoc] at covered
      refine ⟨covered, ?_⟩
      rw [labels, covers.labels_add first, reachedAfter_cons_of_ok laid,
        List.filterMap_eq_flatMap_toList, List.filterMap_eq_flatMap_toList, List.flatMap_cons,
        List.append_assoc]

end Following

/-- What a source is laid out to has its labels as they are noted. -/
theorem covers_of_firstPass {laid : Layout} (accepted : firstPass lines = .ok laid) :
    laid.Covers lines ∧ laid.labels = notedLabels lines := by
  obtain ⟨covered, labels⟩ := Covers.addAll rfl covers_empty accepted
  rw [List.nil_append] at covered
  rw [notedLabels, ← reachedAfter_nil]
  exact ⟨covered, labels⟩

theorem announced_empty (lines : List SourceLine) :
    empty.announced lines = (notedLabels lines).map Definition.notice := by
  rw [Covers.announced rfl covers_empty, reachedAfter_nil, notedLabels]

/-- The label operands of a layout are those of its lines. -/
theorem Covers.uses (covers : layout.Covers lines) :
    layout.draft.references.map Reference.use = labelUses lines := by
  rw [labelUses, covers.operands]
  exact use_referencesFrom 0 layout.cells

end Layout

/-- What is noted of a source can be told from its lines. -/
theorem notices_assemble (source : List UInt8) :
    let lines := sourceLines 1 source
    (assemble source).notices = (notedLabels lines).map Definition.notice ++
      if (firstPass lines).isOk then
        (patches (notedLabels lines) (labelUses lines)).map Patch.notice
      else [] := by
  intro lines
  rw [assemble_eq_outcome, Layout.outcome_saying, Layout.announced_empty, ← firstPass]
  cases accepted : firstPass lines with
  | error diagnostic => exact (List.append_nil _).symm
  | ok laid =>
    obtain ⟨covers, labels⟩ := Layout.covers_of_firstPass accepted
    have linked := notices_link laid.labels laid.draft.references laid.draft.code
    rw [covers.uses] at linked
    rw [← labels]
    exact congrArg _ linked

theorem toUse_patch? {definitions : List Definition} {use : Use} {patch : Patch}
    (known : patch? definitions use = some patch) : patch.toUse = use := by
  obtain ⟨address, -, rfl⟩ := Option.map_eq_some_iff.mp known
  rfl

theorem patch?_of_address? {definitions : List Definition} {use : Use} {value : UInt8}
    (found : Definition.address? definitions use.label = some value.toNat) :
    patch? definitions use = some ⟨use, value⟩ := by
  have low : value.toNat < 256 := value.toNat_lt
  simp [patch?, found, Option.filter_some, low]

theorem patch?_of_mem {definitions : List Definition} {uses : List Use} {patch : Patch}
    (member : patch ∈ patches definitions uses) : patch? definitions patch.toUse = some patch := by
  obtain ⟨use, -, known⟩ := List.mem_filterMap.mp member
  rw [toUse_patch? known, known]

/-- Where each use can be patched, each is, and once. -/
theorem toUse_patches {definitions : List Definition} {uses : List Use}
    (known : ∀ use ∈ uses, (patch? definitions use).isSome = true) :
    (patches definitions uses).map Patch.toUse = uses := by
  induction uses with
  | nil => rfl
  | cons use rest ih =>
    obtain ⟨patch, found⟩ := Option.isSome_iff_exists.mp (known use List.mem_cons_self)
    have later := ih fun other member => known other (List.mem_cons_of_mem _ member)
    rw [patches_cons_some definitions found, List.map_cons, toUse_patch? found, later]

/-- A name that is defined once is looked up at that definition. -/
theorem filter_of_address? {definitions : List Definition}
    (distinct : (definitions.map Definition.label).Nodup) {label : Label} {address : Nat}
    (found : Definition.address? definitions label = some address) :
    (definitions.filter fun definition => definition.label = label) = [⟨label, address⟩] := by
  induction definitions with
  | nil => cases found
  | cons definition rest ih =>
    obtain ⟨fresh, others⟩ := List.nodup_cons.mp distinct
    by_cases same : definition.label = label
    · have absent : (rest.filter fun definition => definition.label = label) = [] := by
        apply List.filter_eq_nil_iff.mpr
        intro other member again
        rw [same] at fresh
        exact fresh (List.mem_map.mpr ⟨other, member, of_decide_eq_true again⟩)
      obtain ⟨name, place⟩ := definition
      cases same
      simp only [Definition.address?, List.find?_cons_of_pos, decide_true] at found
      cases found
      rw [List.filter_cons_of_pos (by simp), absent]
    · simp only [Definition.address?, List.find?_cons_of_neg, same, decide_false,
        Bool.false_eq_true, not_false_eq_true] at found
      rw [List.filter_cons_of_neg (by simp [same])]
      exact ih others found

section Linked

variable {labels : List Definition} {cells : List Cell} {bytes : Program}
  (become : List.Forall₂ (Operand.Becomes labels) (cells.map Cell.operand) bytes)
include become

/-- The byte at a reference is the address of its label. -/
theorem exists_patched (front : Program) {reference : Reference}
    (member : reference ∈ referencesFrom front.length cells) :
    ∃ value, (front ++ bytes)[reference.address]? = some value ∧
      Definition.address? labels reference.label = some value.toNat := by
  induction cells generalizing bytes front with
  | nil => cases member
  | cons cell rest ih =>
    obtain ⟨value, values, first, later, rfl⟩ := List.forall₂_cons_left_iff.mp become
    have behind (member : reference ∈ referencesFrom (front.length + 1) rest) := by
      have step := ih later (front ++ [value]) (by simpa using member)
      rwa [List.append_assoc] at step
    obtain ⟨line, operand⟩ := cell
    cases first with
    | byte value => exact behind member
    | label found =>
      rcases List.mem_cons.mp member with rfl | other
      · exact ⟨value, by simp, found⟩
      · exact behind other

/-- Without the bytes put in at its references a program is what was emitted. -/
theorem clear_referencesFrom (front : Program) :
    (referencesFrom front.length cells).foldl (fun code reference => code.set reference.address 0)
      (front ++ bytes) = front ++ cells.map Cell.blank := by
  induction cells generalizing bytes front with
  | nil =>
    cases become
    rfl
  | cons cell rest ih =>
    obtain ⟨value, values, first, later, rfl⟩ := List.forall₂_cons_left_iff.mp become
    have behind (byte : UInt8) := ih later (front ++ [byte])
    simp only [List.length_append, List.length_singleton, List.append_assoc,
      List.singleton_append] at behind
    obtain ⟨line, operand⟩ := cell
    cases first with
    | byte value => exact behind value
    | label found =>
      have cleared : (front ++ value :: values).set front.length 0 = front ++ 0 :: values := by
        simp
      rw [referencesFrom, List.foldl_cons, cleared]
      exact behind 0

end Linked

theorem pairwise_referencesFrom (start : Nat) (cells : List Cell) :
    (referencesFrom start cells).Pairwise fun earlier later => earlier.address < later.address := by
  induction cells generalizing start with
  | nil => exact .nil
  | cons cell rest ih =>
    obtain ⟨line, operand⟩ := cell
    cases operand with
    | byte value => exact ih (start + 1)
    | label label =>
      exact .cons (fun later member => le_address_of_mem_referencesFrom member) (ih (start + 1))

/-- What the assembler records of a source. -/
def assemblyRecords (lines : List SourceLine) : List Log.Record :=
  (notedLabels lines).map (fun noted => ⟨.debug, "ls8asm",
    "label " ++ noted.label.text ++ " at " ++ Numeral.address.write noted.address⟩) ++
  if (firstPass lines).isOk then
    (patches (notedLabels lines) (labelUses lines)).map fun patch => ⟨.debug, "ls8asm",
      "patched " ++ patch.label.text ++ " (" ++ Numeral.address.write patch.target.toNat ++
        ") at " ++ Numeral.address.write patch.address⟩
  else []

/-- The patches of a source that is assembled: each label operand is patched once, with the address
that is noted of its label, and the program without them is what was emitted. -/
structure Explains (lines : List SourceLine) (emitted program : Program) (patched : List Patch) :
    Prop where
  uses : patched.map Patch.toUse = labelUses lines
  labels : ∀ patch ∈ patched,
    ((notedLabels lines).filter fun noted => noted.label = patch.label) =
      [⟨patch.label, patch.target.toNat⟩]
  bytes : ∀ patch ∈ patched, program[patch.address]? = some patch.target
  ordered : patched.Pairwise fun earlier later => earlier.address < later.address
  cleared : patched.foldl (fun code patch => code.set patch.address 0) program = emitted

theorem explains_of_laid {lines : List SourceLine} {laid : Layout} {program : Program}
    (accepted : firstPass lines = .ok laid) (second : secondPass laid = .ok program) :
    Explains lines laid.draft.code program
      (patches (notedLabels lines) (labelUses lines)) := by
  obtain ⟨covers, labels⟩ := Layout.covers_of_firstPass accepted
  have become := becomes_of_mapM second
  have uses : (referencesFrom 0 laid.cells).map Reference.use = labelUses lines := covers.uses
  have distinct := covers.distinct
  rw [labels] at become distinct
  have known (use : Use) (member : use ∈ labelUses lines) : ∃ value,
      program[use.address]? = some value ∧
      Definition.address? (notedLabels lines) use.label = some value.toNat := by
    rw [← uses] at member
    obtain ⟨reference, referred, rfl⟩ := List.mem_map.mp member
    exact exists_patched become [] referred
  have each : (patches (notedLabels lines) (labelUses lines)).map Patch.toUse =
      labelUses lines := by
    apply toUse_patches
    intro use member
    obtain ⟨value, -, address⟩ := known use member
    rw [patch?_of_address? address, Option.isSome_some]
  have found (patch : Patch) (member : patch ∈ patches (notedLabels lines) (labelUses lines)) :
      program[patch.address]? = some patch.target ∧
      Definition.address? (notedLabels lines) patch.label = some patch.target.toNat := by
    have used : patch.toUse ∈ labelUses lines := each ▸ List.mem_map_of_mem member
    obtain ⟨value, byte, address⟩ := known patch.toUse used
    have made := (patch?_of_address? address).symm.trans (patch?_of_mem member)
    have target : value = patch.target := congrArg Patch.target (Option.some.inj made)
    exact ⟨target ▸ byte, target ▸ address⟩
  refine ⟨each, ?_, fun patch member => (found patch member).1, ?_, ?_⟩
  · intro patch member
    exact filter_of_address? distinct (found patch member).2
  · have ordered := pairwise_referencesFrom 0 laid.cells
    have mapped : ((referencesFrom 0 laid.cells).map Reference.use).Pairwise
        fun earlier later => earlier.address < later.address := List.pairwise_map.mpr ordered
    rwa [uses, ← each, List.pairwise_map] at mapped
  · have cleared := clear_referencesFrom become []
    have mapped : ((referencesFrom 0 laid.cells).map Reference.use).foldl
        (fun code use => code.set use.address 0) program = laid.draft.code :=
      List.foldl_map.trans cleared
    rw [uses, ← each] at mapped
    exact List.foldl_map.symm.trans mapped

/-- The assembler reads a source to its end if each line is accepted. -/
theorem isOk_feedAll (source : List UInt8) :
    (Assembler.start.feedAll source).isOk = (firstPass (sourceLines 1 source)).isOk := by
  rw [Assembler.feedAll_start, firstPass]
  cases (sourceLines 1 source).foldlM Layout.add Layout.empty <;> rfl

/-- What the assembler records explains the program. Each label that a line defines for the first
time is recorded with its address, as far as the lines are accepted; and if all of them are, each
use of a label is, up to the first that cannot be resolved. If a program comes of it, the records
of the uses tell what of it was patched, with what, and what it was before. -/
theorem log_explains_program (source : List UInt8) :
    let lines := sourceLines 1 source
    (assemble source).notices.map Log.ofNotice = assemblyRecords lines ∧
    (Assembler.start.feedAll source).isOk = (firstPass lines).isOk ∧
    ∀ program, (assemble source).result = .ok program →
      ∃ read, Assembler.start.feedAll source = .ok read ∧
        Explains lines read.draft.code program
          (patches (notedLabels lines) (labelUses lines)) := by
  intro lines
  refine ⟨?_, isOk_feedAll source, ?_⟩
  · rw [notices_assemble, assemblyRecords, List.map_append, List.map_map]
    split
    · rw [List.map_map]
      rfl
    · rfl
  · intro program assembled
    obtain ⟨read, laid, fed, drafted, accepted, second⟩ := assemble_eq_ok assembled
    refine ⟨read, fed, ?_⟩
    rw [drafted]
    exact explains_of_laid accepted second

/-- A label that is used in front of its definition and behind it. -/
def revisiting : List UInt8 := Text.encode "LDI R1, a\na: # here\nLDI R2, a\nHLT".toList

theorem log_explains_program_revisiting :
    (assemble revisiting).notices.map Log.ofNotice =
      [⟨.debug, "ls8asm", "label a at 0x03"⟩,
        ⟨.debug, "ls8asm", "patched a (0x03) at 0x02"⟩,
        ⟨.debug, "ls8asm", "patched a (0x03) at 0x05"⟩] ∧
    (assemble revisiting).result = .ok [0x82, 1, 3, 0x82, 2, 3, 1] ∧
    ∃ read, Assembler.start.feedAll revisiting = .ok read ∧
      read.draft.code = [0x82, 1, 0, 0x82, 2, 0, 1] := by
  have assembled : (assemble revisiting).result = .ok [0x82, 1, 3, 0x82, 2, 3, 1] := rfl
  obtain ⟨records, -, explained⟩ := log_explains_program revisiting
  obtain ⟨read, fed, explains⟩ := explained _ assembled
  exact ⟨records.trans (by decide +kernel), assembled, read, fed,
    explains.cleared.symm.trans (by decide +kernel)⟩

/-- A line that is refused, here for a duplicate, is the last one that can be noted; and no use
is. -/
example : (assemble (Text.encode "a:\nLDI R0, b\nb:\nb:\nc:".toList)).notices.map Log.ofNotice =
    [⟨.debug, "ls8asm", "label a at 0x00"⟩, ⟨.debug, "ls8asm", "label b at 0x03"⟩] := by
  decide +kernel

end LS8.Assembly
