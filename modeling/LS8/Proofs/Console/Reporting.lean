import LS8.Proofs.Console.Telling

/-! What a command leaves behind. A command that asks for a program to be run reports how its
session ends, the values printed, and on the other output the records that its threshold shows,
in the order in which they were made, with a complaint behind them if there is one. -/
namespace LS8.Console

/-- Arguments that ask for a program to be run. The flag that asks for a trace of it can be spelled
in two ways, and may stand before the program or behind it. -/
inductive Asks (path : String) : Bool → List String → Prop
  | plainly : Asks path false [path]
  | traced {flag : String} (known : flag = "-v" ∨ flag = "--trace") : Asks path true [flag, path]
  | tracedLast {flag : String} (known : flag = "-v" ∨ flag = "--trace") :
    Asks path true [path, flag]

section Asking

variable {path : String} (named : path ≠ "") (operand : path.toList.head? ≠ some '-')
include operand

/-- A path with no dash in front is no flag. -/
theorem Token.ofWord_path : Token.ofWord path = [.operand path] ∧ path ≠ "--" := by
  constructor
  · unfold ofWord
    split
    · rename_i letters
      simp [letters] at operand
    · rename_i letters
      simp [letters] at operand
    · rfl
  · rintro rfl
    exact operand rfl

include named

theorem Request.ofArguments_of_asks {traced : Bool} {arguments : List String}
    (asked : Asks path traced arguments) : ofArguments arguments = .run traced path := by
  obtain ⟨word, other⟩ := Token.ofWord_path operand
  have flag {flag : String} (known : flag = "-v" ∨ flag = "--trace") :
      Token.ofWord flag = [.trace] ∧ flag ≠ "--" := by
    rcases known with rfl | rfl <;> exact ⟨by decide, by decide⟩
  cases asked with
  | plainly => simp [ofArguments, Token.ofArguments, decide, word, other, named]
  | traced known =>
    simp [ofArguments, Token.ofArguments, decide, word, other, named, flag known]
  | tracedLast known =>
    simp [ofArguments, Token.ofArguments, decide, word, other, named, flag known]

end Asking

/-- No argument takes back that a trace was asked for. -/
theorem Request.decide_traced {program : Option String} {tokens : List Token} {traced : Bool}
    {path : String} (requested : decide true program tokens = .run traced path) :
    traced = true := by
  induction tokens generalizing program with
  | nil => cases program <;> simp_all [decide]
  | cons token rest ih =>
    cases token with
    | operand word =>
      simp only [decide] at requested
      split at requested
      · cases requested
      · exact ih requested
    | _ => cases requested

/-- The flag in front asks for the same program to be run, with a trace. -/
theorem Request.ofArguments_flag {flag path : String} {arguments : List String}
    (known : flag = "-v" ∨ flag = "--trace")
    (requested : ofArguments arguments = .run false path) :
    ofArguments (flag :: arguments) = .run true path := by
  have onward {program : Option String} {tokens : List Token}
      (untraced : decide false program tokens = .run false path) :
      decide true program tokens = .run true path := by
    induction tokens generalizing program with
    | nil => cases program <;> simp_all [decide]
    | cons token rest ih =>
      cases token with
      | operand word =>
        simp only [decide] at untraced ⊢
        split at untraced
        · cases untraced
        · rename_i accepted
          rw [if_neg accepted]
          exact ih untraced
      | trace => cases decide_traced untraced
      | _ => cases untraced
  rcases known with rfl | rfl <;> exact onward requested

/-- What is neither a record that is shown nor a complaint leaves no line behind. -/
theorem Entry.error?_eq {entry : Entry} (content : entry.complaint? = none)
    (threshold : Log.Threshold) : entry.error? threshold =
      (entry.record?.filter fun record => threshold.shows record.level).map Log.Record.line := by
  have shown : entry.error? threshold =
      if entry.level?.any threshold.shows then entry.record?.map Log.Record.line else none := by
    cases entry <;> first | rfl | cases content
  rw [shown, ← entry.level_record?]
  cases entry.record? with
  | none => rfl
  | some record => simp [Option.filter_some, apply_ite]

theorem Entry.filterMap_error? {entries : List Entry}
    (content : ∀ entry ∈ entries, entry.complaint? = none) (threshold : Log.Threshold) :
    entries.filterMap (Entry.error? threshold) =
      ((entries.filterMap Entry.record?).filter fun record =>
        threshold.shows record.level).map Log.Record.line := by
  simp only [List.filter_filterMap, List.map_filterMap]
  exact List.filterMap_congr fun entry member => Entry.error?_eq (content entry member) threshold

/-- What a session has to say, complaints apart. -/
inductive Entry.Content (path : String) (outlet : Outlet) : Entry → Prop
  | noted (notice : Assembly.Notice) : Content path outlet (.noted notice)
  | measured (size : Nat) : Content path outlet (.measured path size)
  | traced (snapshot : Snapshot) : Content path outlet (.traced snapshot)
  | event (event : Event) : Content path outlet (.ofEvent outlet event)
  | executed (opcode : Opcode) : Content path outlet (.executed opcode)
  | stopped (fault : Fault) (location : Location) : Content path outlet (.stopped fault location)

theorem Entry.Content.complaint? {path : String} {outlet : Outlet} {entry : Entry}
    (content : Content path outlet entry) : entry.complaint? = none := by
  cases content with
  | event event => cases event <;> cases outlet <;> rfl
  | _ => rfl

namespace Session

variable {traced : Bool} {outlet : Outlet} {limit : Nat} {path : String}
  {contents : Except ReadFault (List UInt8)}

theorem content_of_mem_told {machine : Machine} {entry : Entry} (path : String)
    (member : entry ∈ told traced outlet machine) : entry.Content path outlet := by
  simp only [told, List.mem_append, List.mem_map, List.mem_singleton] at member
  rcases member with (shown | ⟨event, -, rfl⟩) | rfl
  · split at shown
    · obtain ⟨snapshot, -, rfl⟩ := List.mem_map.mp shown
      exact .traced snapshot
    · cases shown
  · exact .event event
  · unfold closing
    split
    · exact .executed _
    · exact .stopped _ _

theorem content_of_mem_account {entry : Entry}
    (member : entry ∈ account traced outlet limit path contents) : entry.Content path outlet := by
  unfold account at member
  split at member
  · cases member
  · rcases List.mem_append.mp member with noted | later
    · obtain ⟨notice, -, rfl⟩ := List.mem_map.mp noted
      exact .noted notice
    · split at later
      · cases later
      · rename_i program _
        simp only [List.mem_append, List.mem_cons, List.not_mem_nil, or_false,
          List.mem_flatMap] at later
        rcases later with (rfl | rfl) | ⟨machine, -, turn⟩
        · exact .measured _
        · exact .event (.loaded program.length)
        · exact content_of_mem_told path turn

/-- The machines that a session tries to have make a step, one in each turn of its run. -/
def attempts (limit : Nat) : Except ReadFault (List UInt8) → List Machine
  | .error _ => []
  | .ok source =>
    match (Assembly.assemble source).result with
    | .error _ => []
    | .ok program => (Machine.fresh.load program).machine.stepped limit

/-- A view to which nothing shows that comes before a run shows the turns of the run. -/
theorem filterMap_account_of_turns {view : Entry → Option α}
    (noted : ∀ notice, view (.noted notice) = none)
    (measured : ∀ size, view (.measured path size) = none)
    (loaded : ∀ size, view (.happened (.loaded size)) = none) :
    (account traced outlet limit path contents).filterMap view =
      (attempts limit contents).flatMap fun machine =>
        (told traced outlet machine).filterMap view := by
  cases contents with
  | error fault => rfl
  | ok source =>
    cases assembled : (Assembly.assemble source).result <;>
      simp [account, attempts, assembled, noted, measured, loaded, List.filterMap_flatMap]

/-- A view that does not see snapshots does not see whether a turn is traced. -/
theorem filterMap_told {machine : Machine} {view : Entry → Option α}
    (blind : ∀ snapshot, view (.traced snapshot) = none) :
    (told traced outlet machine).filterMap view =
      (machine.step.events.map (Entry.ofEvent outlet)).filterMap view ++
        (view (closing machine)).toList := by
  have last (entry : Entry) : [entry].filterMap view = (view entry).toList := by
    cases shown : view entry <;> simp [shown]
  simp only [told, List.filterMap_append, last]
  cases traced <;> cases machine.snapshot <;> simp [blind]

/-- A turn tells how its attempt came out. -/
theorem result?_told (machine : Machine) :
    (told traced outlet machine).filterMap Entry.result? = [machine.step.result] := by
  have silent := (Entry.tells_ofEvent outlet machine.step.events).1
  rw [filterMap_told fun _ => rfl, silent, closing]
  cases machine.step.result <;> rfl

theorem result?_account : (account traced outlet limit path contents).filterMap Entry.result? =
    (attempts limit contents).map fun before => before.step.result := by
  rw [filterMap_account_of_turns (fun _ => rfl) (fun _ => rfl) (fun _ => rfl)]
  simp only [result?_told]
  exact (List.map_eq_flatMap ..).symm

/-- What of a run goes to an output that takes it is the values that are printed. -/
theorem output?_told (machine : Machine) :
    (told traced .accepting machine).filterMap Entry.output? =
      machine.prints?.toList.map fun value => toString value.toNat := by
  have values (event : Event) : (Entry.ofEvent .accepting event).output? =
      event.printed?.map fun value => toString value.toNat := by
    cases event <;> simp [Entry.ofEvent, Entry.output?, Event.printed?, Numeral.decimal_write]
  have printed : (machine.step.events.map (Entry.ofEvent .accepting)).filterMap Entry.output? =
      (printedIn machine.step.events).map fun value => toString value.toNat := by
    simp only [printedIn, List.filterMap_map, List.map_filterMap]
    exact List.filterMap_congr fun event _ => values event
  rw [filterMap_told fun _ => rfl, printed, Machine.printedIn_step, closing]
  split <;> exact List.append_nil _

theorem output?_account :
    (account traced .accepting limit path contents).filterMap Entry.output? =
      ((attempts limit contents).filterMap Machine.prints?).map
        fun value => toString value.toNat := by
  rw [filterMap_account_of_turns (fun _ => rfl) (fun _ => rfl) (fun _ => rfl)]
  simp only [output?_told]
  rw [List.filterMap_eq_flatMap_toList, List.map_flatMap]

/-- Nothing goes to an output that takes nothing. -/
theorem output?_account_failing (reason : String) :
    (account traced (.failing reason) limit path contents).filterMap Entry.output? = [] := by
  apply List.filterMap_eq_nil_iff.mpr
  intro entry member
  cases content_of_mem_account member with
  | event event => cases event <;> rfl
  | _ => rfl

/-- What the views show of a session. Complaints come last, and there are no others. -/
theorem views (traced : Bool) (outlet : Outlet) (limit : Nat) (path : String)
    (contents : Except ReadFault (List UInt8)) :
    let told := (transcript outlet limit (start traced path contents)).1
    let quiet := account traced outlet limit path contents
    told.filterMap Entry.record? = quiet.filterMap Entry.record? ∧
    told.filterMap Entry.output? = quiet.filterMap Entry.output? ∧
    told.filterMap Entry.result? =
      (attempts limit contents).map (fun before => before.step.result) ∧
    told.filterMap Entry.complaint? =
      ((finish outlet limit contents).bind (Ending.complaint? path)).toList := by
  intro told quiet
  have uncomplaining :
      (account traced outlet limit path contents).filterMap Entry.complaint? = [] :=
    List.filterMap_eq_nil_iff.mpr fun _ member => (content_of_mem_account member).complaint?
  simp only [told, transcript_start, List.filterMap_append, uncomplaining, result?_account,
    Ending.complaints]
  cases (finish outlet limit contents).bind (Ending.complaint? path) <;>
    exact ⟨List.append_nil _, List.append_nil _, List.append_nil _, rfl⟩

end Session

namespace Report

theorem ofSession_eq (threshold : Log.Threshold) (outlet : Outlet) (limit : Nat) (started : Turn) :
    ofSession threshold outlet limit started =
      ⟨(transcript outlet limit started).2.map Ending.status, false,
        (transcript outlet limit started).1.filterMap Entry.output?,
        (transcript outlet limit started).1.filterMap (Entry.error? threshold)⟩ := by
  have output (written : Written) (entry : Entry) :
      (written.add threshold entry).output.toList =
        written.output.toList ++ entry.output?.toList := by
    cases shown : entry.output? <;> simp [Written.add, shown]
  have errors (written : Written) (entry : Entry) :
      (written.add threshold entry).errors.toList =
        written.errors.toList ++ (entry.error? threshold).toList := by
    cases shown : entry.error? threshold <;> simp [Written.add, shown]
  simp only [ofSession, attend_eq, Report.mk.injEq, true_and]
  refine ⟨?_, ?_⟩
  · simpa [List.filterMap_eq_flatMap_toList] using
      Monitor.told_foldl (fun written : Written => written.output.toList) output
        (transcript outlet limit started).1 ⟨#[], #[]⟩
  · simpa [List.filterMap_eq_flatMap_toList] using
      Monitor.told_foldl (fun written : Written => written.errors.toList) errors
        (transcript outlet limit started).1 ⟨#[], #[]⟩

/-- The report on a program that was asked for. -/
theorem ofCommand_eq {path : String} {traced : Bool} {arguments : List String}
    (requested : Request.ofArguments arguments = .run traced path)
    (read : String → Except ReadFault (List UInt8)) (chosen : Option Log.Threshold)
    (outlet : Outlet) (limit : Nat) :
    let told := Session.account traced outlet limit path (read path)
    let ending := Session.finish outlet limit (read path)
    let threshold := chosen.getD (defaultThreshold traced)
    ofCommand arguments read chosen outlet limit =
      ⟨ending.map Ending.status, false, told.filterMap Entry.output?,
        ((told.filterMap Entry.record?).filter fun record =>
          threshold.shows record.level).map Log.Record.line ++
          (ending.bind (Ending.complaint? path)).toList⟩ := by
  intro told ending threshold
  have closing : (Ending.complaints path ending).filterMap Entry.output? = [] ∧
      (Ending.complaints path ending).filterMap (Entry.error? threshold) =
        (ending.bind (Ending.complaint? path)).toList := by
    unfold Ending.complaints
    cases ending.bind (Ending.complaint? path) <;> exact ⟨rfl, rfl⟩
  have shown : told.filterMap (Entry.error? threshold) = _ :=
    Entry.filterMap_error? (fun _ member => (Session.content_of_mem_account member).complaint?)
      threshold
  simp only [ofCommand, requested, ofSession_eq, Session.transcript_start, List.filterMap_append]
  simp only [ending, told, threshold] at closing shown ⊢
  simp only [closing, shown, List.append_nil]

end Report

end LS8.Console
