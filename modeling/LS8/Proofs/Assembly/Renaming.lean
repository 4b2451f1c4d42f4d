import Mathlib.Logic.Equiv.Basic
import LS8.Proofs.Assembly.Naming

/-! Other names for the labels of a source. Every definition of a label and every operand of LDI
that names one is written with another name, and nothing else is changed. What is assembled is
the same, and so is why a source is refused, as long as no line becomes too long or short enough
through it. -/
namespace LS8.Assembly

/-- What is in front of the comment is renamed if it is text. -/
def renameLine (names : Label → Label) (line : List UInt8) : List UInt8 :=
  match Text.decode? (line.takeWhile (· != commentSign)) with
  | none => line
  | some text => Text.encode (renameText names text) ++ line.dropWhile (· != commentSign)

def renameSource (names : Label → Label) (source : List UInt8) : List UInt8 :=
  [newline].intercalate ((source.splitOn newline).map (renameLine names))

section
variable (names : Label → Label)

theorem mem_of_mem_replaceName {word : List Char} {c : Char}
    (member : c ∈ replaceName names word) : c ∈ word ∨ IsPlain c := by
  rcases replaceName_cases names word with ⟨label, -, renamed⟩ | ⟨same, -⟩
  · rw [renamed] at member
    exact .inr ((names label).plain c member)
  · rw [same] at member
    exact .inl member

theorem mem_of_mem_mapWord {index : Nat} {text : List Char} {c : Char}
    (member : c ∈ Text.mapWord Statement.separates (replaceName names) index text) :
    c ∈ text ∨ IsPlain c := by
  rcases Text.mapWord_cases Statement.separates (replaceName names) index text with
    ⟨same, -⟩ | ⟨front, word, back, rfl, changed, -⟩
  · rw [same] at member
    exact .inl member
  · rw [changed] at member
    rcases List.mem_append.mp member with inside | behind
    · rcases List.mem_append.mp inside with before | named
      · exact .inl (by simp [before])
      · exact (mem_of_mem_replaceName names named).imp_left fun old => by simp [old]
    · exact .inl (by simp [behind])

/-- Only characters of names are new in a line. -/
theorem mem_of_mem_renameText {text : List Char} {c : Char}
    (member : c ∈ renameText names text) : c ∈ text ∨ IsPlain c := by
  unfold renameText at member
  split at member
  · rename_i defines
    obtain ⟨gap, back, -, -, split⟩ := exists_definition defines
    rcases List.mem_append.mp member with inside | behind
    · rcases List.mem_append.mp inside with blank | named
      · exact .inl (List.takeWhile_subset _ blank)
      · refine (mem_of_mem_replaceName names named).imp_left fun old => ?_
        rw [split]
        simp [old]
    · exact .inl (List.mem_of_mem_drop behind)
  · dsimp only at member
    split at member
    · have start := (List.dropWhile_suffix (l := text) Text.isBlank).subset
      rcases List.mem_append.mp member with inside | behind
      · rcases List.mem_append.mp inside with blank | shown
        · exact .inl (List.takeWhile_subset _ blank)
        · exact .inl (start (List.takeWhile_subset _ shown))
      · refine (mem_of_mem_mapWord names behind).imp_left fun old => ?_
        exact start ((List.dropWhile_suffix _).subset old)
    · exact .inl member

/-- What is in front of a comment is renamed, and the comment is kept. -/
theorem takeWhile_renameLine {line : List UInt8} {text : List Char}
    (decoded : Text.decode? (line.takeWhile (· != commentSign)) = some text) :
    (renameLine names line).takeWhile (· != commentSign) =
      Text.encode (renameText names text) := by
  have kept := Text.decode?_eq_some_iff.mp decoded
  have unmarked : commentSign ∉ Text.encode (renameText names text) := by
    intro sign
    rcases mem_of_mem_renameText names (commentSign_mem_encode_iff.mp sign) with old | plain
    · have inside := commentSign_mem_encode_iff.mpr old
      rw [← kept] at inside
      simpa using List.mem_takeWhile_imp inside
    · exact plain.comment rfl
  have marked : ∀ byte ∈ (line.dropWhile (· != commentSign)).head?, byte = commentSign := by
    intro byte first
    simpa using Text.eq_false_of_mem_head?_dropWhile first
  rw [renameLine, decoded]
  exact takeWhile_append_comment unmarked marked

theorem read_renameLine (line : List UInt8) :
    Statement.read ((renameLine names line).takeWhile (· != commentSign)) =
      (Statement.read (line.takeWhile (· != commentSign))).map (Statement.rename names) := by
  cases decoded : Text.decode? (line.takeWhile (· != commentSign)) with
  | none =>
    rw [renameLine, decoded, Statement.read, decoded]
    rfl
  | some text =>
    rw [takeWhile_renameLine names decoded, Statement.read, Text.decode?_encode, Statement.read,
      decoded]
    exact ofText_renameText names text

/-- No line is cut in two by a name. -/
theorem newline_not_mem_renameLine {line : List UInt8} (clear : newline ∉ line) :
    newline ∉ renameLine names line := by
  unfold renameLine
  cases decoded : Text.decode? (line.takeWhile (· != commentSign)) with
  | none => exact clear
  | some text =>
    intro member
    rcases List.mem_append.mp member with kept | comment
    · rcases mem_of_mem_renameText names (newline_mem_encode_iff.mp kept) with old | plain
      · have inside := newline_mem_encode_iff.mpr old
        rw [← Text.decode?_eq_some_iff.mp decoded] at inside
        exact clear (List.takeWhile_subset _ inside)
      · exact plain.newline rfl
    · exact clear ((List.dropWhile_suffix _).subset comment)

theorem splitOn_renameSource (source : List UInt8) :
    (renameSource names source).splitOn newline =
      (source.splitOn newline).map (renameLine names) := by
  refine List.splitOn_intercalate newline ?_ (by simp)
  intro line member
  obtain ⟨old, inside, rfl⟩ := List.mem_map.mp member
  exact newline_not_mem_renameLine names (newline_not_mem_of_mem_splitOn inside)

/-- A line that fits if and only if it did is read as it was, but for the names. -/
theorem read_renamed (number : Nat) {line : List UInt8}
    (fits : Fits (renameLine names line) ↔ Fits line) :
    SourceLine.saying ⟨number, (renameLine names line).takeWhile (· != commentSign)⟩ =
      (SourceLine.saying ⟨number, line.takeWhile (· != commentSign)⟩).relabel id names := by
  by_cases inside : Fits line
  · simp only [SourceLine.saying, SourceLine.read_of_le number (fits.mpr inside),
      SourceLine.read_of_le number inside, Saying.relabel, read_renameLine, id_eq]
  · have outside := mt fits.mp inside
    simp only [SourceLine.saying, SourceLine.read_of_lt number (Nat.lt_of_not_le outside),
      SourceLine.read_of_lt number (Nat.lt_of_not_le inside)]
    rfl

end

/-- Label names do not matter. -/
theorem assemble_renameSource {names : Label → Label} (distinct : Function.Injective names)
    {source : List UInt8}
    (fits : ∀ line ∈ source.splitOn newline, Fits (renameLine names line) ↔ Fits line) :
    (assemble (renameSource names source)).notices =
        (assemble source).notices.map (Notice.rename names) ∧
      (assemble (renameSource names source)).result = (assemble source).result := by
  have renamed : (sourceLines 1 (renameSource names source)).map SourceLine.saying =
      ((sourceLines 1 source).map SourceLine.saying).map (Saying.relabel id names) := by
    simp only [sourceLines_eq, splitOn_renameSource, List.zipIdx_map, List.map_map]
    apply List.map_congr_left
    rintro ⟨line, number⟩ member
    exact read_renamed names number (fits line (List.fst_mem_of_mem_zipIdx member))
  have outcome := outcome_relabel id distinct Layout.empty
    ((sourceLines 1 source).map SourceLine.saying)
  have blank : Layout.empty.relabel id names = Layout.empty := rfl
  rw [blank, ← renamed, ← assemble_eq_outcome, ← assemble_eq_outcome] at outcome
  rw [outcome]
  refine ⟨rfl, ?_⟩
  rw [Outcome.relabel]
  cases (assemble source).result <;> rfl

def shortName : Label := ⟨['x'], by decide, by decide⟩

/-- A name that is spelled like a register. -/
def registerName : Label := ⟨['R', '1'], by decide, by decide⟩

/-- A name that is as long as names can be. -/
def longName : Label := ⟨List.replicate nameCapacity 'x', by decide, by decide⟩

/-- A use and a definition of a label, the first of which is indented. -/
def jumping (indent : Nat) (label : Label) : List UInt8 :=
  Text.encode (List.replicate indent ' ' ++ "LDI R0 ".toList ++ label.name ++ ['\n'] ++
    label.name ++ [':'])

theorem assemble_renameSource_jumping :
    (assemble (jumping 0 shortName)).result = .ok [0x82, 0, 3] ∧
      renameSource (Equiv.swap shortName registerName) (jumping 0 shortName) =
        jumping 0 registerName ∧
      (assemble (jumping 0 registerName)).notices =
        [.label registerName 3, .patched registerName 3 2] ∧
      (assemble (jumping 0 registerName)).result = .ok [0x82, 0, 3] := by
  have fits : ∀ line ∈ (jumping 0 shortName).splitOn newline,
      Fits (renameLine (Equiv.swap shortName registerName) line) ↔ Fits line := by
    decide +kernel
  have renamed : renameSource (Equiv.swap shortName registerName) (jumping 0 shortName) =
      jumping 0 registerName := by
    decide +kernel
  have assembled : (assemble (jumping 0 shortName)).result = .ok [0x82, 0, 3] := by rfl
  have noted : (assemble (jumping 0 shortName)).notices =
      [.label shortName 3, .patched shortName 3 2] := by rfl
  obtain ⟨notices, result⟩ := assemble_renameSource (Equiv.injective _) fits
  rw [renamed] at notices result
  rw [notices, noted, result, assembled]
  exact ⟨rfl, renamed, by decide, rfl⟩

/-- A line that was too long can be read with a shorter name. -/
theorem renameSource_shortens :
    Function.Injective (Equiv.swap longName shortName) ∧
      (∀ line ∈ (jumping 90 longName).splitOn newline,
        Fits line → Fits (renameLine (Equiv.swap longName shortName) line)) ∧
      (assemble (jumping 90 longName)).result = .error ⟨1, .lineTooLong⟩ ∧
      renameSource (Equiv.swap longName shortName) (jumping 90 longName) = jumping 90 shortName ∧
      (assemble (jumping 90 shortName)).result = .ok [0x82, 0, 3] :=
  ⟨Equiv.injective _, by decide +kernel, by decide +kernel, by decide +kernel, by decide +kernel⟩

end LS8.Assembly
