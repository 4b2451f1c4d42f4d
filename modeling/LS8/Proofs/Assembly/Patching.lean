import LS8.Proofs.Assembly.Crowding

/-! What linking writes. Every reference stands for a byte that is there, that is zero, and that no
other reference stands for. So a byte is never looked for where there is none, and nothing but these
bytes is changed, each of them once; and it makes no difference in which order this is done. -/
namespace LS8.Assembly

def Patch.write (code : Program) (patch : Patch) : Program := code.set patch.address patch.target

/-- Bytes are put in for zeros, each in a place of its own, and nothing else is changed. -/
structure PutIn (patched : List Patch) (code program : Program) : Prop where
  once : (patched.map fun patch => patch.address).Nodup
  blank : ∀ patch ∈ patched, code[patch.address]? = some 0
  filled : ∀ patch ∈ patched, program[patch.address]? = some patch.target
  kept : ∀ address, address ∉ (patched.map fun patch => patch.address) →
    program[address]? = code[address]?

section Writing

variable {patched : List Patch}

theorem getElem?_foldl_write_of_not_mem (code : Program) {address : Nat}
    (apart : address ∉ patched.map fun patch => patch.address) :
    (patched.foldl Patch.write code)[address]? = code[address]? := by
  induction patched generalizing code with
  | nil => rfl
  | cons patch rest ih =>
    obtain ⟨first, later⟩ := not_or.mp (mt List.mem_cons.mpr apart)
    rw [List.foldl_cons, ih _ later, Patch.write, List.getElem?_set_ne (Ne.symm first)]

variable (distinct : (patched.map fun patch => patch.address).Nodup)
include distinct

theorem getElem?_foldl_write_of_mem (code : Program) {patch : Patch} (member : patch ∈ patched)
    (inside : patch.address < code.length) :
    (patched.foldl Patch.write code)[patch.address]? = some patch.target := by
  induction patched generalizing code with
  | nil => cases member
  | cons first rest ih =>
    obtain ⟨fresh, others⟩ := List.nodup_cons.mp distinct
    rw [List.foldl_cons]
    rcases List.mem_cons.mp member with rfl | later
    · rw [getElem?_foldl_write_of_not_mem _ fresh, Patch.write, List.getElem?_set_self inside]
    · exact ih others _ later (by rwa [Patch.write, List.length_set])

/-- Writes in different places can be made in any order. -/
theorem foldl_write_perm {order : List Patch} (perm : order.Perm patched) (code : Program) :
    order.foldl Patch.write code = patched.foldl Patch.write code := by
  refine (perm.symm.foldl_eq' ?_ code).symm
  intro first one second other code
  by_cases same : first.address = second.address
  · rw [List.inj_on_of_nodup_map distinct one other same]
  · exact List.set_comm _ _ same

theorem putIn_foldl_write {code : Program}
    (blank : ∀ patch ∈ patched, code[patch.address]? = some 0) :
    PutIn patched code (patched.foldl Patch.write code) where
  once := distinct
  blank := blank
  filled := fun patch member => getElem?_foldl_write_of_mem distinct code member
    (List.getElem?_eq_some_iff.mp (blank patch member)).1
  kept := fun _ apart => getElem?_foldl_write_of_not_mem code apart

end Writing

/-- Linking that looks for a byte before it changes it, and comes to nothing where there is none. -/
def linkInside (definitions : List Definition) : List Reference → Program → Option Outcome
  | [], code => some ⟨[], .ok code⟩
  | reference :: rest, code =>
    match Definition.address? definitions reference.label with
    | none => some ⟨[], .error ⟨reference.line, .undefinedLabel⟩⟩
    | some address =>
      if address < 256 then
        if reference.address < code.length then
          let target := UInt8.ofNat address
          (linkInside definitions rest (code.set reference.address target)).map fun linked =>
            ⟨.patched reference.label target reference.address :: linked.notices, linked.result⟩
        else none
      else some ⟨[], .error ⟨reference.line, .invalidOperand⟩⟩

section Linking

variable {definitions : List Definition}

theorem linkInside_eq {references : List Reference} {code : Program}
    (inside : ∀ reference ∈ references, reference.address < code.length) :
    linkInside definitions references code = some (link definitions references code) := by
  induction references generalizing code with
  | nil => rfl
  | cons reference rest ih =>
    obtain ⟨first, later⟩ := List.forall_mem_cons.mp inside
    rw [linkInside, link]
    cases Definition.address? definitions reference.label with
    | none => rfl
    | some address =>
      have later : ∀ other ∈ rest,
          other.address < (code.set reference.address (UInt8.ofNat address)).length := by
        simpa only [List.length_set] using later
      simp only [first, if_true, ih later, Option.map_some]
      split <;> rfl

/-- Linking succeeds if every use can be patched, and the patches are all that it writes. -/
theorem result_link_eq_ok_iff {references : List Reference} {code program : Program} :
    (link definitions references code).result = .ok program ↔
      (∀ use ∈ references.map Reference.use, (patch? definitions use).isSome = true) ∧
        (patches definitions (references.map Reference.use)).foldl Patch.write code = program := by
  induction references generalizing code with
  | nil => simp [link, patches]
  | cons reference rest ih =>
    rw [List.map_cons, List.forall_mem_cons]
    cases known : patch? definitions reference.use with
    | none =>
      obtain ⟨diagnostic, refused⟩ := link_cons_none definitions known rest code
      simp [refused]
    | some patch =>
      rw [link_cons_some definitions known, patches_cons_some definitions known, List.foldl_cons]
      simp only [Option.isSome_some, true_and]
      exact ih

theorem patches_perm {uses order : List Use} (perm : order.Perm uses)
    (known : ∀ use ∈ uses, (patch? definitions use).isSome = true) :
    (patches definitions order).Perm (patches definitions uses) := by
  have all {uses : List Use} (known : ∀ use ∈ uses, (patch? definitions use).isSome = true) :
      patches definitions uses = uses.filterMap (patch? definitions) := by
    rw [patches, List.takeWhile_eq_self_iff.mpr known]
  rw [all known, all fun use member => known use (perm.mem_iff.mp member)]
  exact perm.filterMap _

end Linking

namespace Draft.Orderly

variable {lines : List SourceLine} {draft : Draft} (orderly : draft.Orderly lines)
include orderly

theorem length_references_le : draft.references.length ≤ 85 := by
  have bounded := orderly.bounded
  have sparse := orderly.sparse
  unfold programCapacity at bounded
  omega

theorem linkInside_eq {order : List Reference} (perm : order.Perm draft.references) :
    linkInside draft.definitions order draft.code =
      some (link draft.definitions order draft.code) := by
  refine Assembly.linkInside_eq fun reference member => ?_
  have waits := orderly.waiting reference (perm.mem_iff.mp member)
  exact (List.getElem?_eq_some_iff.mp waits.getElem?).1

/-- Where each reference can be patched, the places patched are those of the references. -/
theorem nodup_patches
    (known : ∀ use ∈ draft.references.map Reference.use,
      (patch? draft.definitions use).isSome = true) :
    ((patches draft.definitions (draft.references.map Reference.use)).map
      fun patch => patch.address).Nodup := by
  have apart : (draft.references.map Reference.address).Nodup :=
    List.pairwise_map.mpr (orderly.spaced.imp fun spaced same => by omega)
  have places := congrArg (List.map Use.address) (toUse_patches known)
  rw [List.map_map, List.map_map] at places
  exact places.symm ▸ apart

theorem result_link_perm {order : List Reference} (perm : order.Perm draft.references)
    (program : Program) :
    (link draft.definitions order draft.code).result = .ok program ↔
      (link draft.definitions draft.references draft.code).result = .ok program := by
  have uses := perm.map Reference.use
  rw [result_link_eq_ok_iff, result_link_eq_ok_iff]
  simp only [uses.mem_iff]
  refine and_congr_right fun known => ?_
  rw [foldl_write_perm (orderly.nodup_patches known) (patches_perm uses known)]

theorem exists_putIn {program : Program}
    (linked : (link draft.definitions draft.references draft.code).result = .ok program) :
    ∃ patched, patched.map Patch.toUse = draft.references.map Reference.use ∧
      (link draft.definitions draft.references draft.code).notices = patched.map Patch.notice ∧
      PutIn patched draft.code program := by
  obtain ⟨known, written⟩ := result_link_eq_ok_iff.mp linked
  have each := toUse_patches known
  refine ⟨_, each, notices_link draft.definitions draft.references draft.code, ?_⟩
  rw [← written]
  refine putIn_foldl_write (orderly.nodup_patches known) fun patch member => ?_
  have used : patch.toUse ∈ draft.references.map Reference.use :=
    each ▸ List.mem_map_of_mem member
  obtain ⟨reference, referred, same⟩ := List.mem_map.mp used
  have place : reference.address = patch.address := congrArg Use.address same
  rw [← place]
  exact (orderly.waiting reference referred).getElem?

end Draft.Orderly

/-- A statement is added operand by operand, and its opcode is the first. Wherever a label comes to
be referred to, there is a place for the reference, and there are no more than 85 then. -/
def Draft.HasRoomFor (draft : Draft) (number : Nat) (statement : Statement) : Prop :=
  ∀ front label rest placed, statement.operands = front ++ .ok (.label label) :: rest →
    draft.placeAll number front = .ok placed →
    ∃ referring, placed.refer number label = .ok referring ∧ referring.references.length ≤ 85

/-- The tables of the assembler stay in order. This is so wherever a source has been read to, in the
middle of a line too, and there is always a place for one more reference; so if there are too many
labels, it is because they are defined. A source that has been read is linked by changing the bytes
that were left for its labels, each of them once, in whichever order. -/
theorem tables_stay_orderly (source : List UInt8) :
    (∀ reached, source.foldlM Assembler.feed .start = .ok reached →
      reached.draft.Orderly (sourceLines 1 source).dropLast ∧
      reached.draft.references.length ≤ 85 ∧
      ∀ statement, Statement.read reached.kept = .ok statement →
        reached.draft.HasRoomFor reached.line statement) ∧
    (∀ number, (assemble source).result = .error ⟨number, .tooManyLabels⟩ ↔
      Crowded (sourceLines 1 source) number) ∧
    ∀ read, Assembler.start.feedAll source = .ok read →
      read.draft.Orderly (sourceLines 1 source) ∧
      read.draft.references.length ≤ 85 ∧
      (∀ order, order.Perm read.draft.references →
        linkInside read.draft.definitions order read.draft.code =
          some (link read.draft.definitions order read.draft.code) ∧
        ∀ program, (link read.draft.definitions order read.draft.code).result = .ok program ↔
          (assemble source).result = .ok program) ∧
      ∀ program, (assemble source).result = .ok program → ∃ patched,
        patched.map Patch.toUse = read.draft.references.map Reference.use ∧
        (assemble source).notices = read.notices ++ patched.map Patch.notice ∧
        PutIn patched read.draft.code program := by
  refine ⟨?_, fun number => assemble_eq_tooManyLabels_iff, ?_⟩
  · intro reached read
    have orderly := Assembler.orderly_of_foldlM read
    refine ⟨orderly, orderly.length_references_le, ?_⟩
    intro statement stated front label rest placed used made
    exact exists_refer orderly stated used made
  · intro read fed
    have orderly := Assembler.orderly_of_feedAll fed
    have finished : assemble source = read.finish := by rw [assemble, fed]
    rw [finished]
    refine ⟨orderly, orderly.length_references_le, ?_, ?_⟩
    · intro order perm
      exact ⟨orderly.linkInside_eq perm, orderly.result_link_perm perm⟩
    · intro program linked
      obtain ⟨patched, each, noted, put⟩ := orderly.exists_putIn linked
      exact ⟨patched, each, congrArg (read.notices ++ ·) noted, put⟩

/-- A source that uses its label twice. -/
def usedTwice : List UInt8 := Text.encode "z:\nLDI R0, z\nLDI R1, z".toList

def usedLabel : Label := ⟨['z'], by decide, by decide⟩

theorem tables_stay_orderly_usedTwice :
    (∃ reached, usedTwice.foldlM Assembler.feed .start = .ok reached ∧
      reached.draft.HasRoomFor 3
        (.instruction 0x82 [.ok (.byte 1), .ok (.label usedLabel)])) ∧
    ∃ read, Assembler.start.feedAll usedTwice = .ok read ∧
      read.draft.references = [⟨usedLabel, 2, 2⟩, ⟨usedLabel, 5, 3⟩] ∧
      (link read.draft.definitions [⟨usedLabel, 5, 3⟩, ⟨usedLabel, 2, 2⟩] read.draft.code).result =
        .ok [0x82, 0, 0, 0x82, 1, 0] := by
  obtain ⟨places, -, linking⟩ := tables_stay_orderly usedTwice
  have begun : usedTwice.foldlM Assembler.feed .start = .ok ⟨3, false,
      Text.encode "LDI R1, z".toList, ⟨[0x82, 0, 0], [⟨usedLabel, 0⟩], [⟨usedLabel, 2, 2⟩]⟩,
      [.label usedLabel 0]⟩ := rfl
  have fed : Assembler.start.feedAll usedTwice = .ok ⟨3, false, [],
      ⟨[0x82, 0, 0, 0x82, 1, 0], [⟨usedLabel, 0⟩], [⟨usedLabel, 2, 2⟩, ⟨usedLabel, 5, 3⟩]⟩,
      [.label usedLabel 0]⟩ := rfl
  obtain ⟨-, -, room⟩ := places _ begun
  obtain ⟨-, -, ordered, -⟩ := linking _ fed
  refine ⟨⟨_, begun, room _ rfl⟩, _, fed, rfl, ?_⟩
  exact ((ordered _ (.swap _ _ _)).2 _).mpr rfl

end LS8.Assembly
