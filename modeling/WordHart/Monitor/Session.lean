import WordHart.Machine.Recording
import WordHart.Monitor.Command

namespace WordHart.Monitor

/-- A machine and the snapshots that were put aside. -/
structure Session where
  machine : Machine
  slots : List (String × Snapshot)
  deriving DecidableEq

def loadParsed (machine : Machine) (parsed : Except ImageError (List Word)) : Reply × Machine :=
  match parsed with
  | .error error => (.failed (.image error), machine)
  | .ok program =>
      match machine.load program with
      | (.ok (), after) => (.done, after)
      | (.error error, after) => (.failed (.program error), after)

/-- The program that a command loads, if it is one that loads. -/
def MachineCommand.program? : MachineCommand → Option (Except ImageError (List Word))
  | load program => some (.ok program)
  | loadText text => some (Image.parseText text)
  | loadImage data => some (Image.parse data)
  | _ => none

def MachineCommand.perform (command : MachineCommand) (machine : Machine) : Reply × Machine :=
  match command with
  | load program => loadParsed machine (.ok program)
  | loadText text => loadParsed machine (Image.parseText text)
  | loadImage data => loadParsed machine (Image.parse data)
  | run =>
      match machine.run with
      | some after => (.counters after.hart.counters, after)
      | none => (.failed .endless, machine)
  | runFor budget =>
      let (runExit, after) := machine.runFor budget.toNat
      (.runExit runExit, after)
  | step =>
      match machine.step with
      | (.ok outcome, after) => (.outcome outcome, after)
      | (.error error, after) => (.failed (.cycle error), after)
  | config => (.config machine.config, machine)

def HartCommand.perform (command : HartCommand) (memory : Memory) (hart : Hart) : Reply × Hart :=
  match command with
  | renew mode => (.done, Hart.new mode)
  | read register => (.word (hart.read register), hart)
  | write register value => (.done, hart.write register value)
  | registers => (.words hart.registers.toList, hart)
  | pc => (.word hart.pc, hart)
  | counters => (.counters hart.counters, hart)
  | fetch =>
      match hart.fetch memory with
      | (.ok word, after) => (.word word, after)
      | (.error error, after) => (.failed (.access error), after)
  | step =>
      match hart.step memory with
      | (.ok outcome, after) => (.outcome outcome, after)
      | (.error error, after) => (.failed (.access error), after)
  | execute instruction =>
      let (outcome, after) := hart.execute instruction
      (.outcome outcome, after)
  | reset => (.done, hart.reset)
  | setPc target => (.done, { hart with pc := target })
  | setRegister register value =>
      (.done, { hart with registers := hart.registers.write register value })
  | setMode mode => (.done, { hart with mode })

def MemoryCommand.perform (command : MemoryCommand) (memory : Memory) : Reply × Memory :=
  match command with
  | renew size => (.done, Memory.zero size)
  | write index values =>
      match memory.write index values with
      | (.ok (), after) => (.done, after)
      | (.error error, after) => (.failed (.access error), after)
  | load index =>
      match memory.load index with
      | .ok word => (.word word, memory)
      | .error error => (.failed (.access error), memory)
  | contains index => (.flag (memory.contains index), memory)
  | isEmpty => (.flag (memory.size = 0), memory)
  | words => (.words memory.words, memory)
  | bytes => (.bytes memory.bytes, memory)
  | digest => (.digest (WordHart.digest memory.words), memory)

namespace Session

def start (config : Config) : Session := ⟨.new config, []⟩

def put (session : Session) (slot : String) (snapshot : Snapshot) : Session :=
  { session with slots := (slot, snapshot) :: session.slots.filter (·.1 ≠ slot) }

/-- Answer from the snapshot in a slot. -/
def withSlot (session : Session) (slot : String) (answer : Snapshot → Reply × Session) :
    Reply × Session :=
  match session.slots.lookup slot with
  | some snapshot => answer snapshot
  | none => (.failed (.emptySlot slot), session)

def restore (session : Session) (snapshot : Snapshot) : Reply × Session :=
  match session.machine.restore snapshot with
  | (.ok (), machine) => (.done, { session with machine })
  | (.error error, machine) => (.failed (.restore error), { session with machine })

/-- Go on with the machine that a snapshot describes, if it describes one. -/
def replace (session : Session) (snapshot : Snapshot) : Reply × Session :=
  match Machine.ofSnapshot snapshot with
  | .ok machine => (.done, { session with machine })
  | .error error => (.failed (.restore error), session)

end Session

def SlotCommand.perform (command : SlotCommand) (session : Session) : Reply × Session :=
  match command with
  | take slot => (.done, session.put slot session.machine.snapshot)
  | edit slot changes =>
      session.withSlot slot fun snapshot => (.done, session.put slot (snapshot.edit changes))
  | get slot => session.withSlot slot fun snapshot => (.snapshot snapshot, session)
  | verify slot => session.withSlot slot fun snapshot => (.flag snapshot.verify, session)
  | toBytes slot => session.withSlot slot fun snapshot => (.bytes snapshot.toBytes, session)
  | equal left right =>
      session.withSlot left fun first =>
        session.withSlot right fun second => (.flag (first = second), session)
  | ofBytes slot data =>
      match Snapshot.ofBytes data with
      | .ok snapshot => (.done, session.put slot snapshot)
      | .error fault => (.failed (.encoding fault), session)
  | restore slot => session.withSlot slot session.restore
  | replace slot => session.withSlot slot session.replace

namespace Session

def perform (session : Session) : Command → Reply × Session
  | .machine command =>
      let (reply, machine) := command.perform session.machine
      (reply, { session with machine })
  | .hart command =>
      let (reply, hart) := command.perform session.machine.memory session.machine.hart
      (reply, { session with machine.hart := hart })
  | .memory command =>
      let (reply, memory) := command.perform session.machine.memory
      (reply, { session with machine.memory := memory })
  | .slot command => command.perform session

/-- What a command adds to a log. No reply and no session depends on it. -/
def record (session : Session) (command : Command) (log : Log) : Log :=
  let machine := session.machine
  match command with
  | .machine .run => machine.recordRun log
  | .machine (.runFor budget) => machine.recordRunFor budget.toNat budget.toNat log
  | .machine .step | .hart .step => machine.recordStep log
  | .machine command =>
      match command.program? with
      | some (.ok program) => machine.recordLoad program log
      | _ => log
  | _ => log

end Session

/-- What is shown after a command. There are no entries where no log was asked for. -/
structure Report where
  reply : Reply
  machine : Machine
  entries : Option (List Entry)
  deriving DecidableEq

/-- The reports on a list of commands. Without a threshold nothing is recorded. -/
def transcript (threshold : Option Threshold) : Session → List Command → List Report
  | _, [] => []
  | session, command :: commands =>
      let (reply, after) := session.perform command
      let entries := threshold.map fun limit => (session.record command (.start limit)).entries
      ⟨reply, after.machine, entries⟩ :: transcript threshold after commands

end WordHart.Monitor
