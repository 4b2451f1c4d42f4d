import LS8.Proofs.Console.Outcome

/-! Observing a program. Tracing adds snapshots to what a session tells and changes nothing else,
and a threshold only hides records; so how closely a program is watched makes no difference to it.
Neither does an output that takes nothing: each value is told of by a warning in its place, and
only a program that would have ended in order ends otherwise. -/
namespace LS8.Console

/-- The entry that is made instead if nothing can be printed. -/
def Entry.denied (reason : String) : Entry → Entry
  | happened (.printed value) => unprinted value reason
  | entry => entry

namespace Entry

variable {path : String} {entry : Entry} (content : entry.Content path .accepting)
include content

theorem Content.record?_denied (reason : String) :
    ((entry.denied reason).record?.filter fun record => record.level ≠ .warn) = entry.record? := by
  cases content with
  | event event => cases event <;> rfl
  | noted notice => simp [denied, record?, Option.filter_some]
  | _ => rfl

/-- A warning stands for a value, and for nothing else. -/
theorem Content.warning?_denied (reason : String) :
    ((entry.denied reason).record?.filter fun record => record.level = .warn) =
      entry.output?.map fun value =>
        ⟨.warn, "ls8", "could not print " ++ value ++ ": " ++ reason⟩ := by
  cases content with
  | event event => cases event <;> rfl
  | noted notice => simp [denied, record?, output?, Option.filter_some]
  | _ => rfl

end Entry

namespace Session

variable {traced : Bool} {outlet : Outlet} {limit : Nat} {path : String}
  {contents : Except ReadFault (List UInt8)}

/-- A view that does not see snapshots does not see whether a session is traced. -/
theorem filterMap_account (traced : Bool) {view : Entry → Option α}
    (blind : ∀ snapshot, view (.traced snapshot) = none) :
    (account traced outlet limit path contents).filterMap view =
      (account false outlet limit path contents).filterMap view := by
  unfold account
  split
  · rfl
  · dsimp only
    split
    · rfl
    · simp only [List.filterMap_append, List.filterMap_flatMap, filterMap_told blind]

theorem account_failing (reason : String) : account traced (.failing reason) limit path contents =
    (account traced .accepting limit path contents).map (Entry.denied reason) := by
  have events : Entry.denied reason ∘ Entry.ofEvent .accepting =
      Entry.ofEvent (.failing reason) := by
    funext event
    cases event <;> rfl
  have shown : Entry.denied reason ∘ Entry.traced = Entry.traced := rfl
  have turns : told traced (.failing reason) = fun machine =>
      (told traced .accepting machine).map (Entry.denied reason) := by
    funext machine
    cases traced <;> cases made : machine.step.result <;>
      simp [told, closing, made, events, shown, Entry.denied]
  unfold account
  split
  · rfl
  · dsimp only
    split <;> simp [Entry.denied, List.map_flatMap, turns]

theorem records_failing (reason : String) :
    let records := (account traced (.failing reason) limit path contents).filterMap Entry.record?
    let quiet := account traced .accepting limit path contents
    (records.filter fun record => record.level ≠ .warn) = quiet.filterMap Entry.record? ∧
    (records.filter fun record => record.level = .warn) =
      (quiet.filterMap Entry.output?).map fun value =>
        ⟨.warn, "ls8", "could not print " ++ value ++ ": " ++ reason⟩ := by
  intro records quiet
  simp only [records, account_failing, List.filterMap_map, List.filter_filterMap,
    List.map_filterMap]
  exact ⟨List.filterMap_congr fun _ member => (content_of_mem_account member).record?_denied reason,
    List.filterMap_congr fun _ member => (content_of_mem_account member).warning?_denied reason⟩

/-- Only a program that would have ended in order, and printed something, ends otherwise if nothing
can be printed. -/
theorem finish_failing (reason : String) (limit : Nat)
    (contents : Except ReadFault (List UInt8)) :
    let results := (attempts limit contents).map fun before => before.step.result
    (finish (.failing reason) limit contents = finish .accepting limit contents ∧
      (finish .accepting limit contents = none ∨ .ok .hlt ∉ results ∨ .ok .prn ∉ results)) ∨
    (finish .accepting limit contents = some .halted ∧
      finish (.failing reason) limit contents = some (.unprinted reason) ∧
      .ok .hlt ∈ results ∧ .ok .prn ∈ results) := by
  intro results
  cases contents with
  | error fault => exact .inl ⟨rfl, .inr (.inl List.not_mem_nil)⟩
  | ok source =>
    cases assembled : (Assembly.assemble source).result with
    | error diagnostic => exact .inl (by simp [finish, attempts, results, assembled])
    | ok program =>
      obtain ⟨memory, loaded, -⟩ := load_assembled assembled
      simp only [finish, results, attempts, assembled, loaded]
      generalize fresh : { Machine.fresh with memory } = machine
      have running : machine.halted = false := fresh ▸ rfl
      rcases Ending.ofRun_cases running limit with ⟨fault, ⟨last, found, faulted⟩, ends⟩ |
        ⟨halts, -, ends⟩ | unended
      · refine .inl ⟨(ends _).trans (ends _).symm, .inr (.inl fun halts => ?_)⟩
        obtain ⟨before, member, made⟩ := List.mem_map.mp halts
        obtain rfl := Option.some.inj
          (found.symm.trans (Machine.getLast?_of_stops member (.inl made)))
        cases faulted.symm.trans made
      · simp only [ends, Machine.printedIn_stepped, remember, List.isEmpty_iff,
          Machine.filterMap_prints?_eq_nil_iff]
        split
        · rename_i silent
          exact .inl ⟨rfl, .inr (.inr silent)⟩
        · rename_i printed
          exact .inr ⟨rfl, rfl, List.mem_map.mpr halts, Decidable.not_not.mp printed⟩
      · exact .inl ⟨(unended _).trans (unended _).symm, .inl (unended _)⟩

end Session

/-- Watching a program makes no difference to it. However it is asked for, the status, the output
and the complaints are those of the session that is not traced, and the records shown are those of
the session that the threshold lets through. If nothing can be printed, the steps and the records
are the same but for one warning for each PRN; and the status is another only if the program halts
without a fault after a PRN. -/
theorem observing_changes_nothing (path : String) (read : String → Except ReadFault (List UInt8))
    (limit : Nat) :
    let told traced outlet := transcript outlet limit (Session.start traced path (read path))
    let status outlet := (told false outlet).2.map Ending.status
    let output outlet := (told false outlet).1.filterMap Entry.output?
    let plain outlet := (told false outlet).1.filterMap Entry.complaint?
    let records traced outlet := (told traced outlet).1.filterMap Entry.record?
    let results traced outlet := (told traced outlet).1.filterMap Entry.result?
    (∀ arguments flag, Request.ofArguments arguments = .run false path →
      flag = "-v" ∨ flag = "--trace" →
      Request.ofArguments (flag :: arguments) = .run true path) ∧
    (∀ traced arguments, Request.ofArguments arguments = .run traced path → ∀ chosen outlet,
      let threshold := chosen.getD (if traced then some .info else some .warn)
      Report.ofCommand arguments read chosen outlet limit =
        ⟨status outlet, false, output outlet,
          ((records traced outlet).filter fun record => threshold.shows record.level).map
            Log.Record.line ++ plain outlet⟩) ∧
    (∀ traced outlet, results traced outlet = results false .accepting) ∧
    (output .accepting).length = (results false .accepting).count (.ok .prn) ∧
    ∀ reason,
      (∀ traced,
        ((records traced (.failing reason)).filter fun record => record.level ≠ .warn) =
          records traced .accepting ∧
        ((records traced (.failing reason)).filter fun record => record.level = .warn) =
          (output .accepting).map fun value =>
            ⟨.warn, "ls8", "could not print " ++ value ++ ": " ++ reason⟩) ∧
      (status (.failing reason) ≠ status .accepting ↔ status .accepting ≠ none ∧
        .ok .hlt ∈ results false .accepting ∧ .ok .prn ∈ results false .accepting) ∧
      (status (.failing reason) = status .accepting ∧ plain (.failing reason) = plain .accepting ∨
        status .accepting = some 0 ∧ plain .accepting = [] ∧ status (.failing reason) = some 1 ∧
          plain (.failing reason) = ["could not print to the standard output: " ++ reason]) := by
  intro told status output plain records results
  have seen traced outlet := Session.views traced outlet limit path (read path)
  have status' outlet : status outlet =
      (Session.finish outlet limit (read path)).map Ending.status := by
    simp only [status, told, Session.transcript_start]
  have output' outlet : output outlet = _ := (seen false outlet).2.1
  have plain' outlet : plain outlet = _ := (seen false outlet).2.2.2
  have records' traced outlet : records traced outlet = _ := (seen traced outlet).1
  have results' traced outlet : results traced outlet = _ := (seen traced outlet).2.2.1
  refine ⟨fun _ _ requested known => Request.ofArguments_flag known requested, ?_, ?_, ?_, ?_⟩
  · intro traced arguments requested chosen outlet threshold
    rw [Report.ofCommand_eq requested, status', output', plain', records',
      Session.filterMap_account traced fun _ => rfl]
    rfl
  · intro traced outlet
    rw [results', results']
  · rw [output', results', Session.output?_account, List.length_map,
      Machine.length_filterMap_prints?]
  intro reason
  refine ⟨?_, ?_⟩
  · intro traced
    rw [records', records', output', ← Session.filterMap_account traced fun _ => rfl]
    exact Session.records_failing reason
  · simp only [status', plain', results']
    rcases Session.finish_failing reason limit (read path) with ⟨same, unended⟩ |
      ⟨ended, lost, halts, printed⟩
    · rw [same]
      refine ⟨iff_of_false (fun differs => differs rfl) ?_, .inl ⟨rfl, rfl⟩⟩
      rintro ⟨ended, halts, printed⟩
      rcases unended with none | unhalted | silent
      · exact ended (congrArg _ none)
      · exact unhalted halts
      · exact silent printed
    · simp only [ended, lost]
      exact ⟨iff_of_true nofun ⟨nofun, halts, printed⟩, .inr ⟨rfl, rfl, rfl, rfl⟩⟩

/-- The program is traced, with all records shown, and prints what it prints unobserved. Its value
is lost if the output is closed, and that is told in the end. -/
theorem observing_changes_nothing_printing :
    let report arguments chosen outlet :=
      Report.ofCommand arguments (fun _ => .ok printing) chosen outlet 4
    Request.ofArguments ["-v", "prog"] = .run true "prog" ∧
    (report ["-v", "prog"] (some (some .trace)) .accepting).output =
      (report ["prog"] none .accepting).output ∧
    (report ["-v", "prog"] none .accepting).status = some 0 ∧
    (report ["prog"] none (.failing "closed")).status = some 1 := by
  intro report
  obtain ⟨flagged, told, -, -, lost⟩ :=
    observing_changes_nothing "prog" (fun _ => .ok printing) 4
  have plainly : Request.ofArguments ["prog"] = .run false "prog" := by decide
  have traced := flagged ["prog"] "-v" plainly (.inl rfl)
  obtain ⟨-, differs, ends⟩ := lost "closed"
  have other := differs.mpr (by decide +kernel)
  rcases ends with ⟨same, -⟩ | ⟨ended, -, warned, -⟩
  · exact absurd same other
  · simp only [report, told true _ traced, told false _ plainly]
    exact ⟨traced, trivial, ended, warned⟩

end LS8.Console
