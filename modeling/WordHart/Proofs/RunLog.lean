import Mathlib
import WordHart.Monitor.Session
import WordHart.Proofs.Cycle
import WordHart.Proofs.Recurrence

/-!
Recording adds the same entries to every log, and the log keeps those that its
threshold lets through. So what is seen at one threshold is what is seen at the
most verbose one without the entries that are too verbose, and there a run can be
read off its log.
-/

namespace WordHart

namespace Log

variable {first second : Log → Log} {front back : List Entry}

/-- Recording adds these entries to any log, as far as its threshold admits them. -/
structure Records (recorded : Log → Log) (entries : List Entry) : Prop where
  threshold : ∀ log, (recorded log).threshold = log.threshold
  entries : ∀ log, (recorded log).entries =
    log.entries ++ entries.filter fun entry => log.threshold.admits entry.level

namespace Records

theorem nothing : Records id [] := ⟨fun _ => rfl, fun _ => (List.append_nil _).symm⟩

theorem record (entry : Entry) : Records (·.record entry) [entry] :=
  ⟨fun log => threshold_record log entry, fun log => entries_record log entry⟩

theorem andThen (before : Records first front) (after : Records second back) :
    Records (second ∘ first) (front ++ back) := by
  refine ⟨fun log => (after.threshold _).trans (before.threshold log), fun log => ?_⟩
  rw [Function.comp_apply, after.entries, before.entries, before.threshold, List.filter_append,
    List.append_assoc]

theorem entries_start (records : Records first front) (threshold : Threshold) :
    (first (start threshold)).entries =
      front.filter fun entry => threshold.admits entry.level :=
  records.entries (start threshold)

theorem entries_trace (records : Records first front) :
    (first (start (some .trace))).entries = front := by
  rw [records.entries_start]
  apply List.filter_eq_self.mpr
  intro entry _
  cases entry.level <;> rfl

end Records

end Log

theorem Hart.outcome_execute (hart : Hart) (instruction : Instruction) :
    (hart.execute instruction).1 = .executed instruction ∨
      ∃ reason, (hart.execute instruction).1 = .ignored instruction reason := by
  unfold execute
  cases hart.effect instruction with
  | ok next => exact .inl rfl
  | error reason => exact .inr ⟨reason, rfl⟩

namespace Machine

variable {machine next final : Machine} {machines : List Machine} {outcome : Outcome} {count : Nat}
  {blocks : List (List Entry)}

/-- What a cycle leaves in a log: an entry with the word that is fetched and with where it is
fetched from, and if the cycle is ignored, one more directly behind it. -/
inductive CycleLog (machine : Machine) : List Entry → Prop
  | executed {word : Word} (fetched : machine.memory.words[machine.hart.pc.toNat]? = some word)
      (executed : machine.step.1 = .ok (.executed (.decode word))) :
      CycleLog machine [.fetched machine.hart.pc (.decode word)]
  | ignored {word : Word} {reason : Unsupported}
      (fetched : machine.memory.words[machine.hart.pc.toNat]? = some word)
      (ignored : machine.step.1 = .ok (.ignored (.decode word) reason)) :
      CycleLog machine [.fetched machine.hart.pc (.decode word),
        .ignored machine.hart.pc (.decode word) reason]

/-- The entry says what the next cycle of a machine fetches and where. -/
def Traces (machine : Machine) (entry : Entry) : Prop :=
  ∃ word, machine.memory.words[machine.hart.pc.toNat]? = some word ∧
    entry = .fetched machine.hart.pc (.decode word)

/-- The machines that so many cycles in a row start from. -/
def starts (machine : Machine) : Nat → List Machine
  | 0 => []
  | count + 1 => machine :: machine.step.2.starts count

theorem exists_word_of_step (stepped : machine.step = (.ok outcome, next)) :
    ∃ word, machine.memory.words[machine.hart.pc.toNat]? = some word ∧
      (outcome = .executed (.decode word) ∨
        ∃ reason, outcome = .ignored (.decode word) reason) := by
  obtain ⟨instruction, fetched⟩ := exists_next (inside_of_step stepped)
  obtain ⟨word, present, rfl⟩ := Option.map_eq_some_iff.mp fetched
  refine ⟨word, present, ?_⟩
  rw [step_of_next fetched] at stepped
  cases stepped
  exact machine.hart.advance.outcome_execute (.decode word)

theorem records_cycle (stepped : machine.step = (.ok outcome, next)) :
    ∃ block, machine.CycleLog block ∧
      Log.Records (recordCycle machine.hart.pc outcome) block := by
  obtain ⟨word, present, rfl | ⟨reason, rfl⟩⟩ := exists_word_of_step stepped
  · exact ⟨_, .executed present (by rw [stepped]), .record _⟩
  · exact ⟨_, .ignored present (by rw [stepped]), (Log.Records.record _).andThen (.record _)⟩

theorem CycleLog.filter_trace {block : List Entry} (logged : machine.CycleLog block) :
    ∃ entry, machine.Traces entry ∧ block.filter (·.level = .trace) = [entry] := by
  cases logged with
  | executed fetched => exact ⟨_, ⟨_, fetched, rfl⟩, rfl⟩
  | ignored fetched => exact ⟨_, ⟨_, fetched, rfl⟩, rfl⟩

theorem CycleLog.level {block : List Entry} (logged : machine.CycleLog block) :
    ∀ entry ∈ block, entry.level = .trace ∨ entry.level = .debug := by
  cases logged <;> simp [Entry.level]

/-- The entries behind the first one of a cycle are counted as ignored. -/
theorem CycleLog.ignored_step {block : List Entry} (logged : machine.CycleLog block) :
    machine.step.2.hart.counters.ignored =
      machine.hart.counters.ignored + BitVec.ofNat 64 (block.countP (·.level = .debug)) := by
  cases logged with
  | executed _ executed =>
      have counted := counters_of_step (Prod.ext executed rfl)
      rw [counted]
      exact (BitVec.add_zero _).symm
  | ignored _ ignored =>
      have counted := counters_of_step (Prod.ext ignored rfl)
      rw [counted]
      rfl

theorem filter_trace_flatten (logged : List.Forall₂ CycleLog machines blocks) :
    List.Forall₂ Traces machines (blocks.flatten.filter (·.level = .trace)) := by
  induction logged with
  | nil => exact .nil
  | cons cycle _ inductionHypothesis =>
      obtain ⟨entry, traces, filtered⟩ := cycle.filter_trace
      rw [List.flatten_cons, List.filter_append, filtered]
      exact .cons traces inductionHypothesis

theorem level_flatten (logged : List.Forall₂ CycleLog machines blocks) :
    ∀ entry ∈ blocks.flatten, entry.level = .trace ∨ entry.level = .debug := by
  induction logged with
  | nil => exact List.forall_mem_nil _
  | cons cycle _ inductionHypothesis =>
      intro entry member
      rw [List.flatten_cons, List.mem_append] at member
      rcases member with own | later
      · exact cycle.level entry own
      · exact inductionHypothesis entry later

theorem ignored_flatten (steps : Steps count machine final)
    (logged : List.Forall₂ CycleLog (machine.starts count) blocks) :
    final.hart.counters.ignored = machine.hart.counters.ignored +
      BitVec.ofNat 64 (blocks.flatten.countP (·.level = .debug)) := by
  induction steps generalizing blocks with
  | refl =>
      cases logged
      exact (BitVec.add_zero _).symm
  | cons stepped _ inductionHypothesis =>
      cases logged with
      | cons cycle later =>
          have own := cycle.ignored_step
          rw [stepped] at own later
          rw [inductionHypothesis later, own, List.flatten_cons, List.countP_append,
            BitVec.ofNat_add, BitVec.add_assoc]

/-- The entry that says how a run has ended. -/
def ending (limit : Nat) : RunExit × Machine → Entry
  | (.stepLimit, final) => .limitReached limit final.hart.pc
  | (.completed, final) => .finished final.hart.pc final.hart.counters

theorem recordRunFor_of_outside (outside : machine.inside = false) (limit budget : Nat) :
    machine.recordRunFor limit budget = machine.recordEnd := by
  funext log
  cases budget <;> simp [recordRunFor, outside]

theorem recordRunFor_zero_of_inside (inside : machine.inside = true) (limit : Nat) :
    machine.recordRunFor limit 0 = (·.record (.limitReached limit machine.hart.pc)) := by
  funext log
  exact if_pos inside

theorem recordRunFor_succ_of_step (stepped : machine.step = (.ok outcome, next))
    (limit budget : Nat) :
    machine.recordRunFor limit (budget + 1) =
      next.recordRunFor limit budget ∘ recordCycle machine.hart.pc outcome := by
  funext log
  simp only [recordRunFor, inside_of_step stepped, stepped, if_true, Function.comp_apply]

theorem records_runFor (limit budget : Nat) (machine : Machine) :
    ∃ count blocks, Steps count machine (machine.runFor budget).2 ∧
      List.Forall₂ CycleLog (machine.starts count) blocks ∧
      Log.Records (machine.recordRunFor limit budget)
        (blocks.flatten ++ [ending limit (machine.runFor budget)]) := by
  induction budget generalizing machine with
  | zero =>
      cases inside : machine.inside with
      | true =>
          have stopped : machine.runFor 0 = (.stepLimit, machine) := if_pos inside
          rw [stopped, recordRunFor_zero_of_inside inside]
          exact ⟨0, [], .refl machine, .nil, .record _⟩
      | false =>
          rw [runFor_of_outside inside, recordRunFor_of_outside inside]
          exact ⟨0, [], .refl machine, .nil, .record _⟩
  | succ budget inductionHypothesis =>
      cases inside : machine.inside with
      | true =>
          obtain ⟨outcome, next, stepped⟩ := step_of_inside inside
          obtain ⟨block, own, recorded⟩ := records_cycle stepped
          obtain ⟨count, blocks, steps, later, rest⟩ := inductionHypothesis next
          rw [runFor_succ_of_inside inside, recordRunFor_succ_of_step stepped, stepped]
          refine ⟨count + 1, block :: blocks, .cons stepped steps, ?_, ?_⟩
          · rw [starts, stepped]
            exact .cons own later
          · rw [List.flatten_cons, List.append_assoc]
            exact recorded.andThen rest
      | false =>
          rw [runFor_of_outside inside, recordRunFor_of_outside inside]
          exact ⟨0, [], .refl machine, .nil, .record _⟩

/-- What the entries of a run say about its cycles and about its end. -/
structure RunLog (machine : Machine) (limit : Nat) (ended : RunExit × Machine)
    (entries : List Entry) : Prop where
  /-- The cycles from the first to the last one, each with its entries, and how the run ended. -/
  cycles : ∃ count blocks, Steps count machine ended.2 ∧
    List.Forall₂ CycleLog (machine.starts count) blocks ∧
    List.Forall₂ Traces (machine.starts count) (entries.filter (·.level = .trace)) ∧
    entries = blocks.flatten ++ [ending limit ended]
  counted : ended.2.hart.counters.cycles = machine.hart.counters.cycles +
    BitVec.ofNat 64 (entries.countP (·.level = .trace))
  ignored : ended.2.hart.counters.ignored = machine.hart.counters.ignored +
    BitVec.ofNat 64 (entries.countP (·.level = .debug))
  warnings : entries.filter (·.level = .warn) =
    if ended.1 = .stepLimit then [.limitReached limit ended.2.hart.pc] else []
  summaries : entries.filter (·.level = .info) =
    if ended.1 = .completed then [.finished ended.2.hart.pc ended.2.hart.counters] else []
  errors : entries.filter (·.level = .error) = []

@[simp] theorem length_starts (machine : Machine) (count : Nat) :
    (machine.starts count).length = count := by
  induction count generalizing machine with
  | zero => rfl
  | succ count inductionHypothesis =>
      rw [starts, List.length_cons, inductionHypothesis]

theorem urgent_ending (limit : Nat) (ended : RunExit × Machine) :
    (ending limit ended).level.verbosity ≤ Level.info.verbosity := by
  rcases ended with ⟨exit, final⟩
  cases exit with
  | completed => exact Nat.le_refl _
  | stepLimit => exact Nat.le_succ _

theorem filter_of_urgent {level : Level} (logged : List.Forall₂ CycleLog machines blocks)
    (urgent : level.verbosity ≤ Level.info.verbosity) (last : Entry) :
    (blocks.flatten ++ [last]).filter (·.level = level) = [last].filter (·.level = level) := by
  have verbose : blocks.flatten.filter (·.level = level) = [] := by
    apply List.filter_eq_nil_iff.mpr
    intro entry member same
    rw [← of_decide_eq_true same] at urgent
    rcases level_flatten logged entry member with traced | debugged
    · rw [traced] at urgent
      contradiction
    · rw [debugged] at urgent
      contradiction
  rw [List.filter_append, verbose, List.nil_append]

theorem RunLog.of_cycles {limit : Nat} {ended : RunExit × Machine}
    (steps : Steps count machine ended.2)
    (logged : List.Forall₂ CycleLog (machine.starts count) blocks) :
    machine.RunLog limit ended (blocks.flatten ++ [ending limit ended]) := by
  have unseen (level : Level) (verbose : Level.info.verbosity < level.verbosity) :
      [ending limit ended].filter (·.level = level) = [] := by
    apply List.filter_eq_nil_iff.mpr
    intro entry member same
    rw [← of_decide_eq_true same, List.mem_singleton.mp member] at verbose
    exact Nat.not_le_of_lt verbose (urgent_ending limit ended)
  have traced : (blocks.flatten ++ [ending limit ended]).filter (·.level = .trace) =
      blocks.flatten.filter (·.level = .trace) := by
    rw [List.filter_append, unseen .trace (by decide), List.append_nil]
  have traces := filter_trace_flatten logged
  have length : (blocks.flatten.filter (·.level = .trace)).length = count := by
    rw [← traces.length_eq, length_starts]
  refine
    { cycles := ⟨count, blocks, steps, logged, traced ▸ traces, rfl⟩
      counted := ?counted
      ignored := ?ignored
      warnings := ?warnings
      summaries := ?summaries
      errors := ?errors }
  case counted =>
    rw [List.countP_eq_length_filter, traced, length]
    exact steps.cycles
  case ignored =>
    rw [List.countP_append, List.countP_eq_length_filter (l := [_]), unseen .debug (by decide)]
    exact ignored_flatten steps logged
  all_goals
    rw [filter_of_urgent logged (by decide)]
    rcases ended with ⟨exit, final⟩
    cases exit <;> rfl

theorem runLog_runFor (machine : Machine) (limit budget : Nat) :
    machine.RunLog limit (machine.runFor budget)
      (machine.recordRunFor limit budget (.start (some .trace))).entries := by
  obtain ⟨count, blocks, steps, logged, records⟩ := records_runFor limit budget machine
  rw [records.entries_trace]
  exact .of_cycles steps logged

/-- A run that is not cut short has the same log whatever the limit. -/
theorem runLog_run (limit : Nat) (returned : machine.run = some final) :
    machine.RunLog limit (.completed, final)
      (machine.recordRun (.start (some .trace))).entries := by
  unfold run at returned
  unfold recordRun
  generalize stateCount = budget at returned
  obtain ⟨count, blocks, steps, logged, records⟩ := records_runFor budget budget machine
  cases ran : machine.runFor budget with
  | mk exit reached =>
      rw [ran] at returned steps records
      cases exit with
      | stepLimit => cases returned
      | completed =>
          cases returned
          rw [records.entries_trace]
          exact .of_cycles steps logged

theorem records_recordRunFor (machine : Machine) (limit budget : Nat) :
    ∃ entries, Log.Records (machine.recordRunFor limit budget) entries ∧
      entries.filter (·.level = .error) = [] := by
  obtain ⟨count, blocks, steps, logged, records⟩ := records_runFor limit budget machine
  exact ⟨_, records, (RunLog.of_cycles steps logged).errors⟩

theorem records_recordStep (machine : Machine) :
    ∃ entries, Log.Records machine.recordStep entries ∧
      entries.filter (·.level = .error) = [] := by
  cases inside : machine.inside with
  | true =>
      obtain ⟨outcome, next, stepped⟩ := step_of_inside inside
      have made : machine.recordStep = recordCycle machine.hart.pc outcome := by
        funext log
        rw [recordStep, stepped]
      obtain ⟨block, own, records⟩ := records_cycle stepped
      refine ⟨block, made ▸ records, ?_⟩
      cases own <;> rfl
  | false =>
      have skipped : machine.recordStep = id := by
        funext log
        rw [recordStep, step_of_outside inside, id]
      exact ⟨[], skipped ▸ .nothing, rfl⟩

theorem records_recordLoad (machine : Machine) (program : List Word) :
    ∃ entries, Log.Records (machine.recordLoad program) entries ∧
      entries.filter (·.level = .error) = [] := by
  unfold recordLoad
  cases (machine.load program).1 with
  | ok => exact ⟨_, .record _, rfl⟩
  | error => exact ⟨[], .nothing, rfl⟩

end Machine

namespace Monitor

theorem records_record (session : Session) (command : Command) :
    ∃ entries, Log.Records (session.record command) entries ∧
      entries.filter (·.level = .error) = [] := by
  have silent : ∃ entries, Log.Records id entries ∧ entries.filter (·.level = .error) = [] :=
    ⟨[], .nothing, rfl⟩
  cases command with
  | machine command =>
      cases command with
      | load program => exact session.machine.records_recordLoad program
      | loadText text =>
          unfold Session.record
          dsimp only [MachineCommand.program?]
          cases Image.parseText text with
          | ok program => exact session.machine.records_recordLoad program
          | error => exact silent
      | loadImage data =>
          unfold Session.record
          dsimp only [MachineCommand.program?]
          cases Image.parse data with
          | ok program => exact session.machine.records_recordLoad program
          | error => exact silent
      | run => exact session.machine.records_recordRunFor _ _
      | runFor budget => exact session.machine.records_recordRunFor _ _
      | step => exact session.machine.records_recordStep
      | config => exact silent
  | hart command =>
      cases command with
      | step => exact session.machine.records_recordStep
      | _ => exact silent
  | memory command => exact silent
  | slot command => exact silent

/-- What is left of a report if entries that are too verbose are left out. -/
def Report.limited (threshold : Threshold) (report : Report) : Report :=
  { report with
    entries := report.entries.map (List.filter fun entry => threshold.admits entry.level) }

theorem transcript_limited (threshold : Threshold) (session : Session) (commands : List Command) :
    transcript (some threshold) session commands =
      (transcript (some (some .trace)) session commands).map (Report.limited threshold) := by
  induction commands generalizing session with
  | nil => rfl
  | cons command commands inductionHypothesis =>
      obtain ⟨entries, records, _⟩ := records_record session command
      simp only [transcript, Option.map_some, List.map_cons, Report.limited,
        records.entries_start threshold, records.entries_trace, inductionHypothesis]

theorem transcript_error_free {threshold : Threshold} {session : Session}
    {commands : List Command} :
    ∀ report ∈ transcript (some threshold) session commands,
      ∃ entries, report.entries = some entries ∧ entries.filter (·.level = .error) = [] := by
  induction commands generalizing session with
  | nil =>
      rw [transcript]
      exact List.forall_mem_nil _
  | cons command commands inductionHypothesis =>
      intro report member
      rw [transcript, List.mem_cons] at member
      rcases member with rfl | later
      · obtain ⟨entries, records, quiet⟩ := records_record session command
        refine ⟨_, rfl, ?_⟩
        refine (congrArg _ (records.entries_start threshold)).trans ?_
        rw [List.filter_comm, quiet, List.filter_nil]
      · exact inductionHypothesis report later

/-- The most verbose log of a run accounts for its cycles and for its end. A session is the same
under any threshold, and so is its log but for the entries that are too verbose. -/
theorem logs_account_for_runs :
    (∀ (machine : Machine) (limit : Nat),
      machine.RunLog limit (machine.runFor limit)
        (machine.recordRunFor limit limit (.start (some .trace))).entries) ∧
    (∀ (machine final : Machine) (limit : Nat), machine.run = some final →
      machine.RunLog limit (.completed, final)
        (machine.recordRun (.start (some .trace))).entries) ∧
    ∀ (threshold : Threshold) (session : Session) (commands : List Command),
      transcript (some threshold) session commands =
        (transcript (some (some .trace)) session commands).map (Report.limited threshold) ∧
      ∀ report ∈ transcript (some threshold) session commands,
        ∃ entries, report.entries = some entries ∧ entries.filter (·.level = .error) = [] := by
  refine ⟨fun machine limit => machine.runLog_runFor limit limit, fun machine final limit => ?_,
    fun threshold session commands => ⟨?_, transcript_error_free⟩⟩
  · exact Machine.runLog_run limit
  · exact transcript_limited threshold session commands

/-- A word that is executed and one that is ignored, up to the end of a small memory. -/
theorem logs_account_for_runs_two_words :
    let machine := ((Machine.new ⟨2, {}⟩).load [0x00000013, 0]).2
    let log := (machine.recordRunFor 2 2 (.start (some .trace))).entries
    machine.run = some (machine.runFor 2).2 ∧
      machine.RunLog 2 (.completed, (machine.runFor 2).2)
        (machine.recordRun (.start (some .trace))).entries ∧
      log = [.fetched 0 (.decode 0x00000013), .fetched 1 (.decode 0),
        .ignored 1 (.decode 0) (.opcode 0), .finished 2 ⟨2, 1, 1⟩] := by
  intro machine log
  have completed : machine.runFor 2 = (.completed, (machine.runFor 2).2) := by decide
  have returned : machine.run = some (machine.runFor 2).2 :=
    Machine.run_eq_some_iff_runFor.mpr ⟨2, completed⟩
  exact ⟨returned, logs_account_for_runs.2.1 machine _ 2 returned, by decide⟩

end Monitor

end WordHart
