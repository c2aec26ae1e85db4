import Mathlib
import WordHart.Proofs.History
import WordHart.Proofs.RunLog

namespace WordHart

/-- What an operation adds to a log. Nothing is recorded of resets and of snapshots. -/
def Machine.record (machine : Machine) : Operation → Log → Log
  | .load program => machine.recordLoad program
  | .step => machine.recordStep
  | .run => machine.recordRun
  | .runFor budget => machine.recordRunFor budget budget
  | .reset | .restore _ | .replace _ => id

namespace Monitor

variable {machine : Machine} {operation : Operation}

/-- The operation that a command on the machine asks for, if it asks for one. -/
def MachineCommand.operation? : MachineCommand → Option Operation
  | run => some .run
  | runFor budget => some (.runFor budget.toNat)
  | step => some .step
  | command => command.program?.bind fun parsed => parsed.toOption.map .load

def HartCommand.operation? : HartCommand → Option Operation
  | step => some .step
  | reset => some .reset
  | _ => none

def SlotCommand.operation? (slots : List (String × Snapshot)) : SlotCommand → Option Operation
  | restore slot => (slots.lookup slot).map .restore
  | replace slot => (slots.lookup slot).map .replace
  | _ => none

/-- A command that sets a part of the hart, or has it do a part of a cycle. -/
def HartCommand.isDirect : HartCommand → Bool
  | renew _ | write .. | fetch | execute _ | setPc _ | setRegister .. | setMode _ => true
  | read _ | registers | pc | counters | step | reset => false

def MemoryCommand.isDirect : MemoryCommand → Bool
  | renew _ | write .. => true
  | load _ | contains _ | isEmpty | words | bytes | digest => false

/-- A command that changes a part of the machine as no operation does. -/
def Command.isDirect : Command → Bool
  | .hart command => command.isDirect
  | .memory command => command.isDirect
  | .machine _ | .slot _ => false

theorem machine_loadParsed (machine : Machine) (parsed : Except ImageError (List Word)) :
    (loadParsed machine parsed).2 =
      ((parsed.toOption.map Operation.load).bind machine.perform).getD machine := by
  unfold loadParsed
  cases parsed with
  | error error => rfl
  | ok program =>
      change _ = (machine.load program).2
      dsimp only
      rcases machine.load program with ⟨result, after⟩
      cases result <;> rfl

theorem MachineCommand.machine_perform (command : MachineCommand) (machine : Machine) :
    (command.perform machine).2 = (command.operation?.bind machine.perform).getD machine := by
  cases command with
  | load program => exact machine_loadParsed machine (.ok program)
  | loadText text => exact machine_loadParsed machine (Image.parseText text)
  | loadImage data => exact machine_loadParsed machine (Image.parse data)
  | run =>
      unfold perform operation? Machine.perform
      dsimp only [Option.bind_some]
      cases machine.run <;> rfl
  | runFor budget => rfl
  | step =>
      change _ = machine.step.2
      unfold perform
      dsimp only
      rcases machine.step with ⟨result, after⟩
      cases result <;> rfl
  | config => rfl

theorem HartCommand.machine_perform {command : HartCommand} (indirect : command.isDirect = false)
    (machine : Machine) :
    { machine with hart := (command.perform machine.memory machine.hart).2 } =
      (command.operation?.bind machine.perform).getD machine := by
  cases command with
  | read | registers | pc | counters | reset => rfl
  | step =>
      change _ = { machine with hart := (machine.hart.step machine.memory).2 }
      unfold perform
      dsimp only
      rcases machine.hart.step machine.memory with ⟨result, after⟩
      cases result <;> rfl
  | _ => contradiction

theorem MemoryCommand.memory_perform {command : MemoryCommand} (indirect : command.isDirect = false)
    (memory : Memory) : (command.perform memory).2 = memory := by
  cases command with
  | contains | isEmpty | words | bytes | digest => rfl
  | load index =>
      unfold perform
      dsimp only
      cases memory.load index <;> rfl
  | _ => contradiction

theorem Session.machine_restore (session : Session) (snapshot : Snapshot) :
    (session.restore snapshot).2.machine = (session.machine.restore snapshot).2 := by
  unfold restore
  rcases session.machine.restore snapshot with ⟨result, machine⟩
  cases result <;> rfl

theorem Session.machine_replace (session : Session) (snapshot : Snapshot) :
    (session.replace snapshot).2.machine =
      (session.machine.perform (.replace snapshot)).getD session.machine := by
  unfold replace Machine.perform
  dsimp only
  cases Machine.ofSnapshot snapshot <;> rfl

theorem Session.machine_withSlot {session : Session} {answer : Snapshot → Reply × Session}
    (kept : ∀ snapshot, (answer snapshot).2.machine = session.machine) (slot : String) :
    (session.withSlot slot answer).2.machine = session.machine := by
  unfold withSlot
  cases session.slots.lookup slot with
  | none => rfl
  | some snapshot => exact kept snapshot

theorem SlotCommand.machine_perform (command : SlotCommand) (session : Session) :
    (command.perform session).2.machine =
      ((command.operation? session.slots).bind session.machine.perform).getD session.machine := by
  cases command with
  | restore slot =>
      unfold perform operation? Session.withSlot
      dsimp only
      cases session.slots.lookup slot with
      | none => rfl
      | some snapshot => exact session.machine_restore snapshot
  | replace slot =>
      unfold perform operation? Session.withSlot
      dsimp only
      cases session.slots.lookup slot with
      | none => rfl
      | some snapshot => exact session.machine_replace snapshot
  | take slot => rfl
  | edit | get | verify | toBytes =>
      apply Session.machine_withSlot
      exact fun _ => rfl
  | equal left right =>
      apply Session.machine_withSlot
      intro first
      apply Session.machine_withSlot
      exact fun _ => rfl
  | ofBytes slot data =>
      unfold perform
      dsimp only
      cases Snapshot.ofBytes data <;> rfl

namespace Session

variable {session : Session} {command : Command} {commands : List Command}

/-- The operation on the machine that a command asks for, if it asks for one. -/
def operation? (session : Session) : Command → Option Operation
  | .machine command => command.operation?
  | .hart command => command.operation?
  | .slot command => command.operation? session.slots
  | .memory _ => none

/-- A command does to the machine what the operation does that it asks for. A run that does not end
leaves the machine as it is. -/
theorem machine_perform (indirect : command.isDirect = false) (session : Session) :
    (session.perform command).2.machine =
      ((session.operation? command).bind session.machine.perform).getD session.machine := by
  cases command with
  | machine command => exact command.machine_perform session.machine
  | hart command => exact HartCommand.machine_perform indirect session.machine
  | memory command =>
      have kept := MemoryCommand.memory_perform indirect session.machine.memory
      exact congrArg (fun memory => { session.machine with memory }) kept
  | slot command => exact command.machine_perform session

/-- What a command adds to a log is what the operation adds that it asks for. -/
theorem record_eq (session : Session) (command : Command) (log : Log) :
    session.record command log =
      (session.operation? command).elim log fun operation =>
        session.machine.record operation log := by
  cases command with
  | machine command =>
      cases command with
      | run =>
          unfold record operation? MachineCommand.operation? Machine.record
          dsimp only [Option.elim_some]
      | load | runFor | step | config => rfl
      | loadText text =>
          unfold record operation? MachineCommand.operation?
          dsimp only [MachineCommand.program?, Option.bind_some]
          cases Image.parseText text <;> rfl
      | loadImage data =>
          unfold record operation? MachineCommand.operation?
          dsimp only [MachineCommand.program?, Option.bind_some]
          cases Image.parse data <;> rfl
  | hart command => cases command <;> rfl
  | memory command => rfl
  | slot command =>
      cases command with
      | restore slot | replace slot =>
          change log = _
          unfold operation? SlotCommand.operation?
          dsimp only
          cases session.slots.lookup slot <;> rfl
      | _ => rfl

/-- The session after a list of commands. -/
def after (session : Session) : List Command → Session
  | [] => session
  | command :: commands => (session.perform command).2.after commands

/-- The operations that some commands ask for in the course of a session. A run that does not end
is none of them: it leaves the machine as it is. -/
def operations (session : Session) : List Command → List Operation
  | [] => []
  | command :: commands =>
      ((session.operation? command).filter fun operation =>
        (session.machine.perform operation).isSome).toList ++
        (session.perform command).2.operations commands

/-- Unless commands set parts of it, the machine of a session is what the operations make of it
that the commands ask for. -/
theorem performAll_operations (indirect : ∀ command ∈ commands, command.isDirect = false) :
    session.machine.performAll (session.operations commands) =
      some (session.after commands).machine := by
  induction commands generalizing session with
  | nil => rfl
  | cons command commands inductionHypothesis =>
      obtain ⟨own, others⟩ := List.forall_mem_cons.mp indirect
      have later : (session.perform command).2.machine.performAll
          ((session.perform command).2.operations commands) = _ := inductionHypothesis others
      rw [machine_perform own session] at later
      rw [operations, after]
      cases asked : session.operation? command with
      | none =>
          rw [asked] at later
          exact later
      | some operation =>
          rw [asked, Option.bind_some] at later
          cases performed : session.machine.perform operation with
          | none =>
              rw [performed] at later
              simp only [Option.filter, performed]
              exact later
          | some next =>
              rw [performed] at later
              simp only [Option.filter, performed, Option.isSome_some, if_true,
                Option.toList_some, List.singleton_append, Machine.performAll]
              exact later

/-- What is shown after a single command. -/
def report (session : Session) (threshold : Option Threshold) (command : Command) : Report :=
  ⟨(session.perform command).1, (session.perform command).2.machine,
    threshold.map fun limit => (session.record command (.start limit)).entries⟩

theorem transcript_cons (threshold : Option Threshold) (session : Session) (command : Command)
    (commands : List Command) :
    transcript threshold session (command :: commands) =
      session.report threshold command ::
        transcript threshold (session.perform command).2 commands := rfl

variable {threshold : Option Threshold} {shown : Report}

theorem exists_command_of_mem (member : shown ∈ transcript threshold session commands) :
    ∃ front command back, commands = front ++ command :: back ∧
      shown = (session.after front).report threshold command := by
  induction commands generalizing session with
  | nil => contradiction
  | cons command commands inductionHypothesis =>
      rw [transcript_cons] at member
      rcases List.mem_cons.mp member with first | later
      · exact ⟨[], command, commands, rfl, first⟩
      · obtain ⟨front, other, back, rfl, same⟩ := inductionHypothesis later
        exact ⟨command :: front, other, back, rfl, same⟩

theorem after_concat (session : Session) (front : List Command) (command : Command) :
    session.after (front ++ [command]) = ((session.after front).perform command).2 := by
  induction front generalizing session with
  | nil => rfl
  | cons first front inductionHypothesis => exact inductionHypothesis _

/-- Each machine that a session shows is the one that the operations so far lead to. -/
theorem exists_operations_of_mem (indirect : ∀ command ∈ commands, command.isDirect = false)
    (member : shown ∈ transcript threshold session commands) :
    ∃ done, done <+: commands ∧
      session.machine.performAll (session.operations done) = some shown.machine := by
  obtain ⟨front, command, back, rfl, rfl⟩ := exists_command_of_mem member
  have within : front ++ [command] <+: front ++ command :: back := ⟨back, by simp⟩
  refine ⟨front ++ [command], within, ?_⟩
  rw [performAll_operations fun each among => indirect each (within.mem among), after_concat]
  rfl

theorem reachable_of_mem (reachable : session.machine.Reachable)
    (indirect : ∀ command ∈ commands, command.isDirect = false)
    (member : shown ∈ transcript threshold session commands) : shown.machine.Reachable := by
  obtain ⟨done, -, performed⟩ := exists_operations_of_mem indirect member
  exact Machine.reachable_performAll reachable performed

/-- The report on a bounded run shows how it ended, and its entries account for the run. -/
theorem runLog_report_runFor (session : Session) (budget : BitVec 64) :
    let ended := session.machine.runFor budget.toNat
    ∃ entries, session.report (some (some .trace)) (.machine (.runFor budget)) =
        ⟨.runExit ended.1, ended.2, some entries⟩ ∧
      session.machine.RunLog budget.toNat ended entries := by
  refine ⟨_, rfl, ?_⟩
  dsimp only
  rw [record_eq]
  exact session.machine.runLog_runFor _ _

theorem runLog_report_run {final : Machine} (returned : session.machine.run = some final)
    (limit : Nat) :
    ∃ entries, session.report (some (some .trace)) (.machine .run) =
        ⟨.counters final.hart.counters, final, some entries⟩ ∧
      session.machine.RunLog limit (.completed, final) entries := by
  have performed : session.perform (.machine .run) =
      (.counters final.hart.counters, { session with machine := final }) := by
    unfold perform MachineCommand.perform
    dsimp only
    rw [returned]
  rw [report, performed]
  refine ⟨_, rfl, ?_⟩
  dsimp only
  rw [record_eq]
  unfold operation? MachineCommand.operation? Machine.record
  dsimp only [Option.elim_some]
  exact Machine.runLog_run limit returned

end Session

end Monitor

end WordHart
