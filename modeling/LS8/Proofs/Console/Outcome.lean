import LS8.Proofs.Console.Reporting

/-! The outcome of a command: its status, what it prints, and when it comes to an end at all. A
fault of the run outweighs a value that was lost, and a value that was lost outweighs an orderly
end; a program that cannot be read or assembled is never run, and one that can be assembled always
is. -/
namespace LS8.Console

open Monitor

namespace Ending

variable {machine : Machine} {limit : Nat} {unprinted : Option String}

/-- A run ends with a fault or with HLT, or has not come to an end. Which of them it is does not
depend on what was printed. -/
theorem ofRun_cases (running : machine.halted = false) (limit : Nat) :
    (∃ fault, (∃ last, (machine.stepped limit).getLast? = some last ∧
        last.step.result = .error fault) ∧
      ∀ unprinted, ofRun limit machine unprinted = some (.faulted fault)) ∨
    ((∃ before ∈ machine.stepped limit, before.step.result = .ok .hlt) ∧
      (machine.after limit).halted = true ∧
      ∀ unprinted, ofRun limit machine unprinted = some (.ofUnprinted unprinted)) ∨
    ∀ unprinted, ofRun limit machine unprinted = none := by
  unfold ofRun
  cases reported : (machine.run limit).2.fault? with
  | some fault => exact .inl ⟨fault, fault_run_iff.mp reported, fun _ => rfl⟩
  | none =>
    by_cases enough : 0 < limit ∧ (machine.after (limit - 1)).halted = true
    · refine .inr (.inl ⟨?_, Machine.halted_after_mono (Nat.sub_le limit 1) enough.2,
        fun _ => if_pos enough⟩)
      rcases Machine.halted_after_iff.mp enough.2 with never | ⟨before, member, stops⟩
      · exact absurd never (Bool.eq_false_iff.mp running)
      · have made := Machine.stepped_mono (Nat.sub_le limit 1) member
        rcases stops with halts | ⟨fault, faulted⟩
        · exact ⟨before, made, halts⟩
        · have last := Machine.getLast?_of_stops made (.inr ⟨fault, faulted⟩)
          cases (fault_run_iff.mpr ⟨before, last, faulted⟩).symm.trans reported
    · exact .inr (.inr fun _ => if_neg enough)

theorem ofRun_eq_some {ending : Ending} (running : machine.halted = false)
    (ended : ofRun limit machine unprinted = some ending) :
    (∃ fault, ending = .faulted fault ∧ machine.ComesTo (.error fault)) ∨
    (ending = .ofUnprinted unprinted ∧ machine.ComesTo (.ok .hlt) ∧
      (machine.after limit).halted = true) := by
  rcases ofRun_cases running limit with ⟨fault, ⟨last, found, faulted⟩, ends⟩ |
    ⟨⟨before, member, made⟩, halted, ends⟩ | unended
  · refine .inl ⟨fault, Option.some.inj (ended.symm.trans (ends unprinted)), ?_⟩
    exact faulted ▸ Machine.comesTo_of_mem (List.mem_of_getLast? found)
  · refine .inr ⟨Option.some.inj (ended.symm.trans (ends unprinted)), ?_, halted⟩
    exact made ▸ Machine.comesTo_of_mem member
  · cases ended.symm.trans (unended unprinted)

/-- A run comes to an end, in enough turns, if it comes to an attempt that stops it. The end is
seen two turns after that attempt was begun, at the latest. -/
theorem exists_ofRun_ne_none_iff (running : machine.halted = false)
    (unprinted : Nat → Option String) :
    (∃ limit, ofRun limit machine (unprinted limit) ≠ none) ↔
      ∃ result, machine.ComesTo result ∧ Stops result := by
  constructor
  · rintro ⟨limit, ended⟩
    obtain ⟨ending, came⟩ := Option.ne_none_iff_exists'.mp ended
    rcases ofRun_eq_some running came with ⟨fault, -, faulted⟩ | ⟨-, made, -⟩
    · exact ⟨_, faulted, .inr ⟨fault, rfl⟩⟩
    · exact ⟨_, made, .inl rfl⟩
  · rintro ⟨_, ⟨index, live, rfl⟩, stops⟩
    have halted : (machine.after (index + 1)).halted = true := by
      rw [Machine.after_succ_last]
      exact (Machine.halted_step_iff live).mpr stops
    refine ⟨index + 2, ?_⟩
    unfold ofRun
    split
    · exact Option.some_ne_none _
    · rw [if_pos ⟨Nat.succ_pos _, halted⟩]
      exact Option.some_ne_none _

end Ending

theorem Session.remember_eq_none_iff {outlet : Outlet} {events : List Event} :
    remember none outlet events = none ↔ printedIn events = [] ∨ outlet = .accepting := by
  cases outlet with
  | accepting => simp [remember]
  | failing reason => cases none : printedIn events <;> simp [remember, none]

/-- A run that has come to its end has printed something if it came to a PRN that succeeds. -/
theorem printedIn_eq_nil_iff {machine : Machine} {limit : Nat}
    (halted : (machine.after limit).halted = true) :
    printedIn ((machine.stepped limit).flatMap fun before => before.step.events) = [] ↔
      ¬machine.ComesTo (.ok .prn) := by
  rw [Machine.printedIn_stepped, Machine.filterMap_prints?_eq_nil_iff]
  refine not_congr ⟨fun printed => ?_, fun reached => List.mem_map.mpr (reached.mem_stepped halted)⟩
  obtain ⟨before, member, made⟩ := List.mem_map.mp printed
  exact made ▸ Machine.comesTo_of_mem member

/-- The status of a program that was run. -/
theorem status_ofRun {machine : Machine} {limit status : Nat} (outlet : Outlet)
    (running : machine.halted = false)
    (ended : (Ending.ofRun limit machine (Session.remember none outlet
      ((machine.stepped limit).flatMap fun before => before.step.events))).map Ending.status =
        some status) :
    (status = 3 ↔ ∃ fault, machine.ComesTo (.error fault)) ∧
    (status = 1 ↔ machine.ComesTo (.ok .hlt) ∧ machine.ComesTo (.ok .prn) ∧
      outlet ≠ .accepting) ∧
    (status = 0 ↔ machine.ComesTo (.ok .hlt) ∧
      ¬(machine.ComesTo (.ok .prn) ∧ outlet ≠ .accepting)) := by
  obtain ⟨ending, came, rfl⟩ := Option.map_eq_some_iff.mp ended
  rcases Ending.ofRun_eq_some running came with ⟨fault, rfl, faulted⟩ | ⟨rfl, made, halted⟩
  · have unmade : ¬machine.ComesTo (.ok .hlt) := by
      intro made
      cases made.eq_of_stops faulted (.inl rfl) (.inr ⟨fault, rfl⟩)
    exact ⟨iff_of_true rfl ⟨fault, faulted⟩, iff_of_false nofun fun ends => unmade ends.1,
      iff_of_false nofun fun ends => unmade ends.1⟩
  · have unfaulted : ¬∃ fault, machine.ComesTo (.error fault) := by
      rintro ⟨fault, faulted⟩
      cases made.eq_of_stops faulted (.inl rfl) (.inr ⟨fault, rfl⟩)
    have lost : Session.remember none outlet
        ((machine.stepped limit).flatMap fun before => before.step.events) = none ↔
          ¬machine.ComesTo (.ok .prn) ∨ outlet = .accepting := by
      rw [Session.remember_eq_none_iff, printedIn_eq_nil_iff halted]
    cases remembered : Session.remember none outlet
        ((machine.stepped limit).flatMap fun before => before.step.events) with
    | none =>
      have kept : ¬(machine.ComesTo (.ok .prn) ∧ outlet ≠ .accepting) := by
        rintro ⟨printed, failed⟩
        exact (lost.mp remembered).elim (· printed) failed
      exact ⟨iff_of_false nofun unfaulted, iff_of_false nofun fun ends => kept ends.2,
        iff_of_true rfl ⟨made, kept⟩⟩
    | some reason =>
      have gone : machine.ComesTo (.ok .prn) ∧ outlet ≠ .accepting := by
        simpa [not_or] using mt lost.mpr (by simp [remembered])
      exact ⟨iff_of_false nofun unfaulted, iff_of_true rfl ⟨made, gone⟩,
        iff_of_false nofun fun ends => ends.2 gone⟩

/-- What comes of a command that asks for a program to be run. A file that cannot be read, or not be
assembled, is complained of and not run. Any other is loaded and run on a fresh machine: if the run
comes to an end at all, the status tells a fault from HLT, and a HLT after a value was lost from any
other. An output that takes them gets the values of the PRN instructions, in order. -/
theorem command_outcome {path : String} (named : path ≠ "")
    (operand : path.toList.head? ≠ some '-') {traced : Bool} {arguments : List String}
    (asked : Asks path traced arguments) (read : String → Except ReadFault (List UInt8))
    (chosen : Option Log.Threshold) (outlet : Outlet) :
    let report := Report.ofCommand arguments read chosen outlet
    let threshold := chosen.getD (Report.defaultThreshold traced)
    (∀ fault, read path = .error fault → ∀ limit,
      report limit = ⟨some 2, false, [], ["could not open " ++ path ++ ": " ++ fault.message]⟩) ∧
    (∀ source diagnostic, read path = .ok source →
      (Assembly.assemble source).result = .error diagnostic → ∀ limit,
      report limit = ⟨some 1, false, [],
        (((Assembly.assemble source).notices.map Log.ofNotice).filter fun record =>
          threshold.shows record.level).map Log.Record.line ++
        [path ++ ": " ++ diagnostic.message]⟩) ∧
    (∀ source program, read path = .ok source → (Assembly.assemble source).result = .ok program →
      ∃ memory, Memory.Overlaid program .blank memory ∧
        Machine.fresh.load program =
          ⟨{ Machine.fresh with memory }, .ok (), [.loaded program.length]⟩ ∧
        let machine := { Machine.fresh with memory }
        ((∃ limit, (report limit).status ≠ none) ↔
          ∃ result, machine.ComesTo result ∧ Stops result) ∧
        ∀ limit,
          (report limit).misused = false ∧
          (outlet = .accepting → (report limit).output =
            ((machine.stepped limit).filterMap Machine.prints?).map
              fun value => toString value.toNat) ∧
          (outlet ≠ .accepting → (report limit).output = []) ∧
          ∀ status, (report limit).status = some status →
            (status = 3 ↔ ∃ fault, machine.ComesTo (.error fault)) ∧
            (status = 1 ↔ machine.ComesTo (.ok .hlt) ∧ machine.ComesTo (.ok .prn) ∧
              outlet ≠ .accepting) ∧
            (status = 0 ↔ machine.ComesTo (.ok .hlt) ∧
              ¬(machine.ComesTo (.ok .prn) ∧ outlet ≠ .accepting))) := by
  intro report threshold
  have requested := Request.ofArguments_of_asks named operand asked
  have told (limit : Nat) := Report.ofCommand_eq requested read chosen outlet limit
  refine ⟨?_, ?_, ?_⟩
  · intro fault unreadable limit
    simp only [report, told, unreadable]
    rfl
  · intro source diagnostic found refused limit
    simp only [report, told, found, Session.account, Session.finish, refused, List.append_nil,
      List.filterMap_map]
    simp [Function.comp_def, Entry.output?, Entry.record?, Ending.status, Ending.complaint?,
      threshold]
  · intro source program found assembled
    obtain ⟨memory, loaded, cells⟩ := Session.load_assembled assembled
    have machine : (Machine.fresh.load program).machine = { Machine.fresh with memory } :=
      congrArg Attempt.machine loaded
    have running : ({ Machine.fresh with memory } : Machine).halted = false := rfl
    refine ⟨memory, cells, loaded, ?_, ?_⟩
    · simp only [report, told, found, Session.finish, assembled, machine, ne_eq,
        Option.map_eq_none_iff]
      exact Ending.exists_ofRun_ne_none_iff running _
    · intro limit
      simp only [report, told, found]
      refine ⟨trivial, ?_, ?_, ?_⟩
      · rintro rfl
        simp only [Session.output?_account, Session.attempts, assembled, machine]
      · intro failed
        cases outlet with
        | accepting => exact absurd rfl failed
        | failing reason => exact Session.output?_account_failing ..
      · intro status ended
        simp only [Session.finish, assembled, machine] at ended
        exact status_ofRun outlet running ended

/-- A program that prints a register and halts. -/
def printing : List UInt8 := "PRN R0\nHLT".toList.map Char.toUInt8

/-- The program halts after its value was lost. A command that finds no program says so. -/
theorem command_outcome_printing :
    let report := Report.ofCommand ["-v", "prog"] (fun _ => .ok printing) none (.failing "closed")
    (report 4).status = some 1 ∧ (report 4).output = [] ∧
    (∃ memory, Memory.Overlaid [0x47, 0x00, 0x01] .blank memory ∧
      Machine.ComesTo { Machine.fresh with memory } (.ok .hlt) ∧
      Machine.ComesTo { Machine.fresh with memory } (.ok .prn)) ∧
    Report.ofCommand ["prog"] (fun _ => .error .missing) none .accepting 4 =
      ⟨some 2, false, [], ["could not open prog: No such file or directory (os error 2)"]⟩ := by
  intro report
  have ended : (report 4).status = some 1 := by decide +kernel
  have assembled : (Assembly.assemble printing).result = .ok [0x47, 0x00, 0x01] := rfl
  obtain ⟨-, -, run⟩ := command_outcome (by decide : "prog" ≠ "") (by decide)
    (.traced (.inl rfl)) (fun _ => .ok printing) none (.failing "closed")
  obtain ⟨memory, cells, -, -, told⟩ := run printing _ rfl assembled
  obtain ⟨-, -, silent, status⟩ := told 4
  obtain ⟨-, lost, -⟩ := status 1 ended
  obtain ⟨halts, prints, -⟩ := lost.mp rfl
  obtain ⟨unread, -, -⟩ := command_outcome (by decide : "prog" ≠ "") (by decide) .plainly
    (fun _ => .error .missing) none .accepting
  exact ⟨ended, silent nofun, ⟨memory, cells, halts, prints⟩, unread .missing rfl 4⟩

end LS8.Console
